import HtDrivers.Cvorg.Ioctls
import HtDrivers.Cvorg.SeqIntact

/-! Who owns a module of the CVORG, and what the other clients can still change of it. Every call tests the owner but
those that go by the skeleton: resets, raw accesses and the end of the JTAG access. -/
namespace HtDrivers.Cvorg
open Lib.Transition
set_option autoImplicit false

/-! ## CVORG ioctls -/

section Handler
variable {w : ℕ} {e : CvorgEndian} {interrupted : Bool} {cvorg : CvorgModule} {file X : ℕ} {nr : Fin 2}
    {cm : CvorgIoctl}

/-- The owner behind an ioctl that is let through. -/
def ownerAfter (owner : Option ℕ) (file : ℕ) : CvorgIoctl → Option ℕ
  | .tUnlockForce | .tUnlock => none
  | .tLock => some file
  | _ => owner

theorem cvorgHandler_owner : (cvorgHandler w e cvorg file nr cm).1.owner = ownerAfter cvorg.owner file cm := by
  cases cm <;> rfl

/-- An ioctl is refused and changes nothing, or its handler runs. -/
theorem skelUserIoctls_cases (w : ℕ) (e : CvorgEndian) (interrupted : Bool) (cvorg : CvorgModule) (file : ℕ)
    (nr : Fin 2)
    (cm : CvorgIoctl) : (∃ errno, skelUserIoctls w e interrupted cvorg file nr cm = (cvorg, .error errno)) ∨
    (cm.nr ≤ cvorgIoctlLocking ∨ cvorgCheckPerm cvorg file = false) ∧
      skelUserIoctls w e interrupted cvorg file nr cm = cvorgHandler w e cvorg file nr cm := by
  unfold skelUserIoctls
  split
  · exact .inl ⟨_, rfl⟩
  split
  · exact .inl ⟨_, rfl⟩
  · rename_i hperm
    refine .inr ⟨?_, rfl⟩
    rw [Bool.and_eq_true, decide_eq_true_iff] at hperm
    by_cases hnr : cm.nr > cvorgIoctlLocking
    · exact .inr (Bool.eq_false_iff.mpr fun h => hperm ⟨hnr, h⟩)
    · exact .inl (by omega)

theorem onChannel_same {result : CvorgContext × Reply} (h : result.1 = cvorg.hw.channels nr) :
    (onChannel cvorg nr result).1.hw = cvorg.hw := by
  unfold onChannel
  rw [h, Function.update_eq_self]

/-- The ioctls that need no owner leave the hardware alone, but for GSRAM. -/
theorem cvorgHandler_hw (hnr : cm.nr ≤ cvorgIoctlLocking)
    (hsram : ∀ sramBusy address, cm = .gSram sramBusy address → sramBusy = true ∨ address.toNat ≥ cvorgSramSize) :
    (cvorgHandler w e cvorg file nr cm).1.hw = cvorg.hw := by
  unfold cvorgIoctlLocking at hnr
  cases cm with
  | gSram sramBusy address =>
    apply onChannel_same
    unfold gsSram
    obtain hbusy | hlarge := hsram sramBusy address rfl
    · rw [hbusy]
      split
      · rfl
      split <;> rfl
    · rw [if_neg (by simp), if_pos hlarge]
  | sOutOffset | sInPolarity | sPll | sSram | sTrigger | sLoadseq | tUnlock | tLock | sMode | sOutGain | gAdcRead
  | sDacVal | sDacGain | sDacOffset | sOutEnable =>
    exact absurd hnr (by simp only [CvorgIoctl.nr]; omega)
  | _ => rfl

end Handler

/-! ## Raw accesses -/

section Raw
variable {hw : CvorgHw} {address : ℤ}

/-- A read there clears the interrupt source or moves the pointer of the SRAM. -/
def ReadChanges (address : ℤ) : Prop :=
  ∃ nr offset, registerAt address = some (nr, offset) ∧ (offset = cvorgIntsr ∨ offset = cvorgSramData)

theorem busAccess_read (h : ¬ReadChanges address) : busAccess hw address none = hw := by
  unfold busAccess
  split
  · rfl
  · rename_i nr offset hreg
    have hintsr : offset ≠ cvorgIntsr := fun heq => h ⟨nr, offset, hreg, .inl heq⟩
    have hdata : offset ≠ cvorgSramData := fun heq => h ⟨nr, offset, hreg, .inr heq⟩
    simp only [readRegister, if_neg hintsr, if_neg hdata, Function.update_eq_self]

theorem busAccess_outside (data : Option U32) (h : registerAt address = none) : busAccess hw address data = hw := by
  unfold busAccess
  split
  · rfl
  · rename_i nr offset hreg
    exact absurd (h.symm.trans hreg) (by simp)

/-- The access is made. -/
def RawIoBlock.Accepted (riob : RawIoBlock) : Prop :=
  (∃ window, riob.window = some window ∧ (window = 0 ∨ riob.offset < window)) ∧ riob.busError = false ∧
    (riob.dataWidth = 8 ∨ riob.dataWidth = 16 ∨ riob.dataWidth = 32)

def RawIoTransfer.Accepted (riob : RawIoTransfer) : Prop :=
  (∃ window, riob.window = some window ∧ (window = 0 ∨ riob.offset < window)) ∧ riob.memory = true

theorem rawIo_same {riob : RawIoBlock} {flag : Bool}
    (h : riob.Accepted → busAccess hw riob.offset (if flag then some riob.data else none) = hw) :
    (rawIo hw riob flag).1 = hw := by
  unfold rawIo
  split
  · rfl
  rename_i window hwindow
  split
  · rfl
  rename_i hrange
  split
  · rfl
  rename_i hbus
  split
  · rename_i hwidth
    have haccepted : riob.Accepted := ⟨⟨window, hwindow, by omega⟩, Bool.eq_false_iff.mpr hbus, hwidth⟩
    dsimp only
    rw [h haccepted]
  · rfl

theorem busAccess_fold {flag : Bool} {address : ℕ → ℤ} (items : List U32) (k : ℕ)
    (h : ∀ i, k ≤ i → i < k + items.length → ∀ hw data, busAccess hw (address i)
      (if flag then some data else none) = hw) :
    (items.zipIdx k).foldl (fun hw item => busAccess hw (address item.2) (if flag then some item.1 else none))
    hw = hw := by
  induction items generalizing k with
  | nil => rfl
  | cons item items ih =>
    rw [List.length_cons] at h
    rw [List.zipIdx_cons, List.foldl_cons, h k (Nat.le_refl k) (by omega)]
    exact ih (k + 1) fun i hi hlt => h i (by omega) (by omega)

theorem rawIoBlock_same {riob : RawIoTransfer} {flag : Bool} (h : riob.Accepted → ∀ i < riob.items.length, ∀ hw data,
    busAccess hw (riob.address flag i) (if flag then some data else none) = hw) : (rawIoBlock hw riob flag).1 = hw := by
  unfold rawIoBlock
  split
  · rfl
  rename_i window hwindow
  split
  · rfl
  rename_i hrange
  split
  · rfl
  rename_i hmemory
  have hmemory' : riob.memory = true := by simpa using hmemory
  exact busAccess_fold riob.items 0 fun i _ hi =>
    h ⟨⟨window, hwindow, by omega⟩, hmemory'⟩ i (by omega)

end Raw

/-! ## Calls -/

/-- The calls that reach the hardware past the test of the owner: a reset, raw writes to a register, raw reads of the
interrupt source or of the SRAM, and GSRAM, which sets the pointer of the SRAM. -/
def Disturbs : ClientCall → Prop
  | .skel (.reset _ _) | .skel (.jtagClose _ _) => True
  | .skel (.rawRead riob) => riob.Accepted ∧ ReadChanges riob.offset
  | .skel (.rawWrite riob) => riob.Accepted ∧ registerAt riob.offset ≠ none
  | .skel (.rawBlockRead riob) => riob.Accepted ∧ ∃ i < riob.items.length, ReadChanges (riob.address false i)
  | .skel (.rawBlockWrite riob) => riob.Accepted ∧ ∃ i < riob.items.length, registerAt (riob.address true i) ≠ none
  | .cvorg _ (.gSram sramBusy address) => sramBusy = false ∧ address.toNat < cvorgSramSize
  | _ => False

section Calls
variable {n : ℕ} {number : Fin n → ℤ} {w : ℕ} {e : CvorgEndian} {d d' : CvorgDriver n} {file X : ℕ} {ccon : CvorgClient}
  {m m' : Fin n}

/-- The module that a client has selected. -/
def selected (number : Fin n → ℤ) (d : CvorgDriver n) (file : ℕ) : Option (Fin n) :=
  (d.clients file).bind fun ccon => getMcon number ccon.moduleNumber

theorem setHw_modules (hw : CvorgHw) : ((d.setHw m hw).modules m').hw = if m' = m then hw else (d.modules m').hw := by
  unfold CvorgDriver.setHw
  by_cases h : m' = m
  · subst h
    rw [if_pos rfl]
    simp only [Function.update_self]
  · rw [if_neg h]
    simp only [Function.update_of_ne h]

theorem setHw_owner (hw : CvorgHw) : ((d.setHw m hw).modules m').owner = (d.modules m').owner := by
  unfold CvorgDriver.setHw
  by_cases h : m' = m
  · subst h
    simp only [Function.update_self]
  · simp only [Function.update_of_ne h]

theorem setHw_same {hw : CvorgHw} (h : m' = m → hw = (d.modules m').hw) :
    ((d.setHw m hw).modules m').hw = (d.modules m').hw := by
  rw [setHw_modules]
  split
  · rename_i heq
    exact h heq
  · rfl

/-- Only the selected module changes, and only if the call disturbs it. -/
theorem skelIoctl_hw {cm : SkelIoctl} (h : m' = m → ¬Disturbs (.skel cm)) :
    ((skelIoctl number d file ccon m cm).1.modules m').hw = (d.modules m').hw := by
  cases cm with
  | quiet cm reply => rfl
  | setModule modnr =>
    unfold skelIoctl
    dsimp only
    split <;> rfl
  | reset fpga chip => exact setHw_same fun heq => absurd trivial (h heq)
  | jtagClose fpga chip => exact setHw_same fun heq => absurd trivial (h heq)
  | rawRead riob =>
    refine setHw_same fun heq => ?_
    subst heq
    exact rawIo_same fun haccepted => busAccess_read fun hread => h rfl ⟨haccepted, hread⟩
  | rawWrite riob =>
    refine setHw_same fun heq => ?_
    subst heq
    refine rawIo_same fun haccepted => busAccess_outside _ ?_
    by_contra hreg
    exact h rfl ⟨haccepted, hreg⟩
  | rawBlockRead riob =>
    refine setHw_same fun heq => ?_
    subst heq
    exact rawIoBlock_same fun haccepted i hi hw data => busAccess_read fun hread => h rfl ⟨haccepted, i, hi, hread⟩
  | rawBlockWrite riob =>
    refine setHw_same fun heq => ?_
    subst heq
    refine rawIoBlock_same fun haccepted i hi hw data => busAccess_outside _ ?_
    by_contra hreg
    exact h rfl ⟨haccepted, i, hi, hreg⟩

theorem skelIoctl_owner {cm : SkelIoctl} :
    ((skelIoctl number d file ccon m cm).1.modules m').owner = (d.modules m').owner := by
  cases cm with
  | quiet cm reply => rfl
  | setModule modnr =>
    unfold skelIoctl
    dsimp only
    split <;> rfl
  | reset fpga chip => exact setHw_owner _
  | jtagClose fpga chip => exact setHw_owner _
  | rawRead riob => exact setHw_owner _
  | rawWrite riob => exact setHw_owner _
  | rawBlockRead riob => exact setHw_owner _
  | rawBlockWrite riob => exact setHw_owner _

theorem selectChannel_modules (nr : ℤ) : (selectChannel d file ccon nr).1.modules = d.modules := by
  unfold selectChannel
  split
  · rfl
  split <;> rfl

/-- A CVORG ioctl leaves the selected module as the handler does, and the others alone. -/
theorem userIoctl_modules {interrupted : Bool} {cm : CvorgIoctl} :
    (userIoctl w e d file ccon m interrupted cm).1.modules = Function.update d.modules m
      (skelUserIoctls w e interrupted (d.modules m) file ccon.channelNr cm).1 := by
  unfold userIoctl
  dsimp only
  split
  · exact selectChannel_modules _
  · rfl

theorem userIoctl_hw {interrupted : Bool} {cm : CvorgIoctl}
    (h : m' = m → ((d.modules m').owner = some X ∧ X ≠ file) ∧ ¬Disturbs (.cvorg interrupted cm)) :
    ((userIoctl w e d file ccon m interrupted cm).1.modules m').hw = (d.modules m').hw := by
  rw [userIoctl_modules]
  by_cases heq : m' = m
  · subst heq
    obtain ⟨⟨howner, hne⟩, hquiet⟩ := h rfl
    rw [Function.update_self]
    obtain ⟨errno, hrefused⟩ | ⟨hallowed, hrun⟩ := skelUserIoctls_cases w e interrupted (d.modules m') file
      ccon.channelNr cm
    · rw [hrefused]
    · rw [hrun]
      have hperm : cvorgCheckPerm (d.modules m') file = true := by
        unfold cvorgCheckPerm
        rw [howner]
        simpa using hne
      refine cvorgHandler_hw (hallowed.resolve_right (by rw [hperm]; simp)) ?_
      rintro sramBusy address rfl
      by_contra hsram
      rw [not_or, Bool.not_eq_true] at hsram
      exact hquiet ⟨hsram.1, by omega⟩
  · rw [Function.update_of_ne heq]

/-! ### All calls -/

/-- What a call does to the driver. -/
theorem clientCall_cases {call : ClientCall} {reply : Reply}
    (h : clientCall number w e d file call = some (d', reply)) : (call = .openFile ∧ d.clients file = none ∧
        d' = { d with clients := Function.update d.clients file (some (clientInit number)) }) ∨
      (call = .closeFile ∧ d' = { clientRelease d file with clients := Function.update d.clients file none }) ∨
      (call ≠ .openFile ∧ d' = d ∧ ((call = .closeFile → d.clients file = none) ∧ ∃ errno, reply = .error errno)) ∨
      ∃ ccon m, d.clients file = some ccon ∧ selected number d file = some m ∧
        ((∃ cm, call = .skel cm ∧ d' = (skelIoctl number d file ccon m cm).1 ∧
            reply = (skelIoctl number d file ccon m cm).2) ∨
          ∃ interrupted cm, call = .cvorg interrupted cm ∧ d' = (userIoctl w e d file ccon m interrupted cm).1 ∧
            reply = (userIoctl w e d file ccon m interrupted cm).2) := by
  cases call with
  | openFile =>
    unfold clientCall at h
    cases hclient : d.clients file with
    | some ccon =>
      rw [hclient] at h
      cases h
    | none =>
      rw [hclient] at h
      cases h
      exact .inl ⟨rfl, rfl, rfl⟩
  | closeFile =>
    unfold clientCall at h
    cases hclient : d.clients file with
    | some ccon =>
      rw [hclient] at h
      cases h
      exact .inr (.inl ⟨rfl, rfl⟩)
    | none =>
      rw [hclient] at h
      cases h
      exact .inr (.inr (.inl ⟨by simp, rfl, fun _ => rfl, _, rfl⟩))
  | skel cm =>
    unfold clientCall at h
    cases hclient : d.clients file with
    | none =>
      rw [hclient] at h
      cases h
      exact .inr (.inr (.inl ⟨by simp, rfl, by simp, _, rfl⟩))
    | some ccon =>
      rw [hclient] at h
      dsimp only at h
      cases hmcon : getMcon number ccon.moduleNumber with
      | none =>
        rw [hmcon] at h
        cases h
        exact .inr (.inr (.inl ⟨by simp, rfl, by simp, _, rfl⟩))
      | some m =>
        rw [hmcon] at h
        have hselected : selected number d file = some m := by
          unfold selected
          rw [hclient]
          exact hmcon
        have hd := (Option.some.inj h).symm
        exact .inr (.inr (.inr ⟨ccon, m, rfl, hselected, .inl ⟨cm, rfl, congrArg Prod.fst hd, congrArg Prod.snd hd⟩⟩))
  | cvorg interrupted cm =>
    unfold clientCall at h
    cases hclient : d.clients file with
    | none =>
      rw [hclient] at h
      cases h
      exact .inr (.inr (.inl ⟨by simp, rfl, by simp, _, rfl⟩))
    | some ccon =>
      rw [hclient] at h
      dsimp only at h
      cases hmcon : getMcon number ccon.moduleNumber with
      | none =>
        rw [hmcon] at h
        cases h
        exact .inr (.inr (.inl ⟨by simp, rfl, by simp, _, rfl⟩))
      | some m =>
        rw [hmcon] at h
        have hselected : selected number d file = some m := by
          unfold selected
          rw [hclient]
          exact hmcon
        have hd := (Option.some.inj h).symm
        exact .inr (.inr (.inr ⟨ccon, m, rfl, hselected,
          .inr ⟨interrupted, cm, rfl, congrArg Prod.fst hd, congrArg Prod.snd hd⟩⟩))

end Calls

/-! ## Who holds a module -/

/-- The driver, and for every module who holds it: the client whose LOCK succeeded last, until it unlocks or closes, or
somebody forces the unlock. -/
structure Watched (n : ℕ) where
  driver : CvorgDriver n
  holder : Fin n → Option ℕ

section Runs
variable {n : ℕ} (number : Fin n → ℤ) (w : ℕ) (e : CvorgEndian)

/-- The holders behind a call that got `reply`. -/
def observe (s : Watched n) (file : ℕ) (call : ClientCall) (reply : Reply) : Fin n → Option ℕ :=
  match call with
  | .closeFile => fun m => if s.holder m = some file then none else s.holder m
  | .cvorg _ cm =>
    match selected number s.driver file, reply with
    | some m, .ok _ =>
      match cm with
      | .tLock => Function.update s.holder m (some file)
      | .tUnlock => if s.holder m = some file then Function.update s.holder m none else s.holder
      | .tUnlockForce => Function.update s.holder m none
      | _ => s.holder
    | _, _ => s.holder
  | _ => s.holder

def watchedCall (s : Watched n) (op : ℕ × ClientCall) : Option (Watched n) :=
  (clientCall number w e s.driver op.1 op.2).map fun r => ⟨r.1, observe number s op.1 op.2 r.2⟩

/-- A client does not reach past the test of the owner while another one holds its module. -/
def Respects (s : Watched n) (op : ℕ × ClientCall) : Prop :=
  ∀ m X, selected number s.driver op.1 = some m → s.holder m = some X → X ≠ op.1 → ¬Disturbs op.2

def cvorgWatched (fpga : Fin n → Fin 2 → CvorgChannel) (chip : Fin n → Ad9516) : Watched n :=
  ⟨cvorgInstall fpga chip, fun _ => none⟩

variable {number w e} {s s' : Watched n} {op : ℕ × ClientCall}

/-- The owners are the holders, and owners are open. -/
structure OwnersHold (s : Watched n) : Prop where
  owner : ∀ m, (s.driver.modules m).owner = s.holder m
  opened : ∀ m X, (s.driver.modules m).owner = some X → s.driver.clients X ≠ none

/-- The holders behind an ioctl that is let through. -/
theorem observe_run {file : ℕ} {interrupted : Bool} {cm : CvorgIoctl} {m : Fin n} {reply : Reply}
    (h : OwnersHold s) (hselected : selected number s.driver file = some m)
    (hok : cm = .tLock ∨ cm = .tUnlock ∨ cm = .tUnlockForce → reply = .ok ())
    (hperm : cm = .tUnlock → s.holder m = none ∨ s.holder m = some file) :
    observe number s file (.cvorg interrupted cm) reply =
      Function.update s.holder m (ownerAfter (s.driver.modules m).owner file cm) := by
  have hkeep : s.holder = Function.update s.holder m (s.driver.modules m).owner := by
    rw [h.owner m, Function.update_eq_self]
  unfold observe
  rw [hselected]
  cases cm with
  | tLock =>
    obtain rfl := hok (.inl rfl)
    rfl
  | tUnlockForce =>
    obtain rfl := hok (.inr (.inr rfl))
    rfl
  | tUnlock =>
    obtain rfl := hok (.inr (.inl rfl))
    show (if s.holder m = some file then Function.update s.holder m none else s.holder) = Function.update
      s.holder m none
    obtain hnone | hfile := hperm rfl
    · rw [if_neg (by rw [hnone]; simp)]
      exact (Function.update_eq_self_iff.mpr hnone.symm).symm
    · rw [if_pos hfile]
  | _ => cases reply <;> exact hkeep

theorem observe_refused {file : ℕ} {interrupted : Bool} {cm : CvorgIoctl} {errno : SkelErrno} :
    observe number s file (.cvorg interrupted cm) (.error errno) = s.holder := by
  unfold observe
  dsimp only
  cases selected number s.driver file <;> rfl

theorem update_opened {clients : ℕ → Option CvorgClient} {file X : ℕ} (ccon : CvorgClient) (h : clients X ≠ none) :
    Function.update clients file (some ccon) X ≠ none := by
  by_cases heq : X = file
  · rw [heq, Function.update_self]
    simp
  · rw [Function.update_of_ne heq]
    exact h

theorem skelIoctl_clients {d : CvorgDriver n} {file X : ℕ} {ccon : CvorgClient} {m : Fin n} {cm : SkelIoctl}
    (h : d.clients X ≠ none) : (skelIoctl number d file ccon m cm).1.clients X ≠ none := by
  cases cm with
  | setModule modnr =>
    unfold skelIoctl
    dsimp only
    split
    · exact h
    · exact update_opened _ h
  | _ => exact h

theorem userIoctl_clients {d : CvorgDriver n} {file X : ℕ} {ccon : CvorgClient} {m : Fin n} {interrupted : Bool}
    {cm : CvorgIoctl} (h : d.clients X ≠ none) : (userIoctl w e d file ccon m interrupted cm).1.clients X ≠ none := by
  have hselect : ∀ (d : CvorgDriver n) nr, d.clients X ≠ none → (selectChannel d file ccon nr).1.clients X ≠ none := by
    intro d nr hd
    unfold selectChannel
    split
    · exact update_opened _ hd
    split
    · exact update_opened _ hd
    · exact hd
  unfold userIoctl
  dsimp only
  split
  · exact hselect _ _ h
  · exact h

/-- The reply of an ioctl that is refused is an error, and a lock or unlock that is let through succeeds. -/
theorem userIoctl_reply (w : ℕ) (e : CvorgEndian) (d : CvorgDriver n) (file : ℕ) (ccon : CvorgClient) (m : Fin n)
    (interrupted : Bool) (cm : CvorgIoctl) :
    (∀ errno, (skelUserIoctls w e interrupted (d.modules m) file ccon.channelNr cm).2 = .error errno →
        (userIoctl w e d file ccon m interrupted cm).2 = .error errno) ∧
      (cm = .tLock ∨ cm = .tUnlock ∨ cm = .tUnlockForce → (userIoctl w e d file ccon m interrupted cm).2 =
        (skelUserIoctls w e interrupted (d.modules m) file ccon.channelNr cm).2) := by
  constructor
  · intro errno herror
    unfold userIoctl
    dsimp only
    split
    · rename_i hok
      rw [herror] at hok
      cases hok
    · exact herror
  · rintro (rfl | rfl | rfl) <;> rfl

/-- The owner of every module behind a CVORG ioctl is its holder. -/
theorem userIoctl_owner {file : ℕ} {ccon : CvorgClient} {m : Fin n} {interrupted : Bool} {cm : CvorgIoctl}
    (h : OwnersHold s) (hselected : selected number s.driver file = some m) (m' : Fin n) :
    ((userIoctl w e s.driver file ccon m interrupted cm).1.modules m').owner =
      observe number s file (.cvorg interrupted cm) (userIoctl w e s.driver file ccon m interrupted cm).2 m' := by
  obtain ⟨herror, hreply⟩ := userIoctl_reply w e s.driver file ccon m interrupted cm
  rw [userIoctl_modules]
  obtain ⟨errno, hrefused⟩ | ⟨hallowed, hrun⟩ := skelUserIoctls_cases w e interrupted (s.driver.modules m) file
    ccon.channelNr cm
  · rw [herror errno (by rw [hrefused]), observe_refused, hrefused, Function.update_eq_self, h.owner]
  · rw [observe_run h hselected, hrun]
    · by_cases heq : m' = m
      · subst heq
        rw [Function.update_self, Function.update_self, cvorgHandler_owner]
      · rw [Function.update_of_ne heq, Function.update_of_ne heq, h.owner]
    · intro hcm
      rw [hreply hcm, hrun]
      rcases hcm with rfl | rfl | rfl <;> rfl
    · rintro rfl
      have hperm := hallowed.resolve_left (by decide)
      unfold cvorgCheckPerm at hperm
      rw [h.owner m] at hperm
      cases howner : s.holder m with
      | none => exact .inl rfl
      | some X =>
        rw [howner] at hperm
        exact .inr (by simpa using hperm)

theorem userIoctl_lockers {file : ℕ} {ccon : CvorgClient} {m m' : Fin n} {interrupted : Bool} {cm : CvorgIoctl} {X : ℕ}
    (hX : ((userIoctl w e s.driver file ccon m interrupted cm).1.modules m').owner = some X) :
    X = file ∨ ∃ m, (s.driver.modules m).owner = some X := by
  rw [userIoctl_modules] at hX
  by_cases heq : m' = m
  · subst heq
    rw [Function.update_self] at hX
    obtain ⟨errno, hrefused⟩ | ⟨-, hrun⟩ := skelUserIoctls_cases w e interrupted (s.driver.modules m') file
      ccon.channelNr cm
    · rw [hrefused] at hX
      exact .inr ⟨m', hX⟩
    · rw [hrun, cvorgHandler_owner] at hX
      cases cm with
      | tLock => exact .inl (Option.some.inj hX).symm
      | tUnlock => cases hX
      | tUnlockForce => cases hX
      | _ => exact .inr ⟨m', hX⟩
  · rw [Function.update_of_ne heq] at hX
    exact .inr ⟨m', hX⟩

theorem ownersHold_step (h : OwnersHold s) (hnext : watchedCall number w e s op = some s') : OwnersHold s' := by
  obtain ⟨file, call⟩ := op
  obtain ⟨⟨d', reply⟩, hcall, hs'⟩ := Option.map_eq_some_iff.mp hnext
  subst hs'
  obtain ⟨hopen, hclient, hd⟩ | ⟨hclose, hd⟩ | ⟨hopen, hd, hclosed, errno, hreply⟩ |
    ⟨ccon, m, hclient, hselected, ⟨cm, hskel, hd, hreply⟩ | ⟨interrupted, cm, hcvorg, hd, hreply⟩⟩ :=
      clientCall_cases hcall
  · subst hopen hd
    refine ⟨h.owner, fun m X hX => ?_⟩
    exact update_opened _ (h.opened m X hX)
  · subst hclose hd
    have howner : ∀ m, ((clientRelease s.driver file).modules m).owner =
        if s.holder m = some file then none else s.holder m := by
      intro m
      unfold clientRelease
      dsimp only
      rw [h.owner m, apply_ite CvorgModule.owner, h.owner m]
    refine ⟨howner, fun m X hX => ?_⟩
    dsimp only at hX ⊢
    rw [howner] at hX
    split at hX
    · cases hX
    · rename_i hne
      have hfile : X ≠ file := by
        rintro rfl
        exact hne hX
      rw [Function.update_of_ne hfile]
      exact h.opened m X (by rw [h.owner, hX])
  · subst hd
    dsimp only
    have hobserve : observe number s file call reply = s.holder := by
      subst hreply
      cases call with
      | closeFile =>
        funext m
        show (if s.holder m = some file then none else s.holder m) = s.holder m
        refine if_neg fun hfile => ?_
        exact h.opened m file (by rw [h.owner, hfile]) (hclosed rfl)
      | cvorg interrupted cm => exact observe_refused
      | _ => rfl
    rw [hobserve]
    exact ⟨h.owner, h.opened⟩
  · subst hskel hd hreply
    refine ⟨fun m' => skelIoctl_owner.trans (h.owner m'), fun m' X hX => skelIoctl_clients (h.opened m' X ?_)⟩
    rw [← hX]
    exact skelIoctl_owner.symm
  · subst hcvorg hd hreply
    refine ⟨userIoctl_owner h hselected, fun m' X hX => userIoctl_clients ?_⟩
    obtain rfl | ⟨m'', hX'⟩ := userIoctl_lockers hX
    · rw [hclient]
      simp
    · exact h.opened m'' X hX'

/-- A call of another client than the holder leaves the module's hardware alone. -/
theorem watchedCall_hw (h : OwnersHold s) (hrespects : Respects number s op)
    (hnext : watchedCall number w e s op = some s')
    {m : Fin n} {X : ℕ} (hholder : s.holder m = some X) (hne : X ≠ op.1) :
    (s'.driver.modules m).hw = (s.driver.modules m).hw := by
  obtain ⟨file, call⟩ := op
  obtain ⟨⟨d', reply⟩, hcall, hs'⟩ := Option.map_eq_some_iff.mp hnext
  subst hs'
  obtain ⟨hopen, hclient, hd⟩ | ⟨hclose, hd⟩ | ⟨hopen, hd, -⟩ |
    ⟨ccon, m', hclient, hselected, ⟨cm, hskel, hd, hreply⟩ | ⟨interrupted, cm, hcvorg, hd, hreply⟩⟩ :=
      clientCall_cases hcall
  · rw [hd]
  · rw [hd]
    show (if (s.driver.modules m).owner = some file then _ else _ : CvorgModule).hw = _
    rw [apply_ite CvorgModule.hw, ite_self]
  · rw [hd]
  · subst hskel hd hreply
    refine skelIoctl_hw fun heq => ?_
    subst heq
    exact hrespects m X hselected hholder hne
  · subst hcvorg hd hreply
    refine userIoctl_hw (X := X) fun heq => ?_
    subst heq
    exact ⟨⟨(h.owner m).trans hholder, hne⟩, hrespects m X hselected hholder hne⟩

theorem closeFile_owner (h : OwnersHold s) {X : ℕ} (hnext : watchedCall number w e s (X, .closeFile) = some s')
    {m : Fin n} (hholder : s.holder m = some X) : (s'.driver.modules m).owner = none := by
  obtain ⟨⟨d', reply⟩, hcall, hs'⟩ := Option.map_eq_some_iff.mp hnext
  subst hs'
  have howner := (h.owner m).trans hholder
  have hopened := h.opened m X howner
  cases hclient : s.driver.clients X with
  | none => exact absurd hclient hopened
  | some ccon =>
    simp only [clientCall, hclient] at hcall
    cases hcall
    show (if (s.driver.modules m).owner = some X then _ else _ : CvorgModule).owner = none
    rw [if_pos howner]

/-- Along a run of calls that respect the holders: a call of another client leaves the hardware of a module that is held
alone, the module has no owner once its holder is closed, and no closed client owns one. -/
theorem ownership_reach (number : Fin n → ℤ) (w : ℕ) (e : CvorgEndian) (fpga : Fin n → Fin 2 → CvorgChannel)
    (chip : Fin n → Ad9516) (s : Watched n)
    (h : Reach (watchedCall number w e) (Respects number) (cvorgWatched fpga chip) s) :
    (∀ op s' m X, Respects number s op → watchedCall number w e s op = some s' → s.holder m = some X → X ≠ op.1 →
        (s'.driver.modules m).hw = (s.driver.modules m).hw) ∧
      (∀ s' m X, watchedCall number w e s (X, .closeFile) = some s' → s.holder m = some X →
        (s'.driver.modules m).owner = none) ∧
      ∀ m X, s.driver.clients X = none → (s.driver.modules m).owner ≠ some X := by
  have howners : OwnersHold s := by
    refine h.invariant ⟨fun _ => rfl, fun m X hX => by cases hX⟩ ?_
    exact fun s op s' hs _ hnext => ownersHold_step hs hnext
  refine ⟨fun op s' m X hrespects hnext hholder hne => ?_, fun s' m X hnext hholder => ?_, fun m X hclosed howner => ?_⟩
  · exact watchedCall_hw howners hrespects hnext hholder hne
  · exact closeFile_owner howners hnext hholder
  · exact howners.opened m X howner hclosed

end Runs

/-! ## A reset by another client -/

section Example

def zeroChannels (_ : Fin 2) : CvorgChannel := emptyChannel

/-- Client 0 sets a gain of 14 dB and locks the module. -/
def lockRun : List (ℕ × ClientCall) :=
  [(0, .openFile), (1, .openFile), (0, .cvorg false (.sOutGain false 14)), (0, .cvorg false .tLock)]

def oneModule (_ : Fin 1) : ℤ := 1

def lockStart : Watched 1 := cvorgWatched (fun _ => zeroChannels) fun _ _ => 0

theorem ownership_locked : ∃ s, Reach (watchedCall oneModule 32 littleEndian) (Respects oneModule) lockStart s ∧
    s.holder 0 = some 0 ∧ ∃ s', watchedCall oneModule 32 littleEndian s (1, .cvorg false (.sOutGain false 2)) =
    some s' ∧ (s'.driver.modules 0).hw = (s.driver.modules 0).hw := by
  obtain ⟨s, hrun⟩ : ∃ s, lockRun.foldlM (watchedCall oneModule 32 littleEndian) lockStart = some s := ⟨_, rfl⟩
  have hquiet : ∀ op ∈ lockRun, ∀ s, Respects oneModule s op := by
    intro op hop s m X _ _ _
    simp only [lockRun, List.mem_cons, List.not_mem_nil, or_false] at hop
    rcases hop with rfl | rfl | rfl | rfl <;> exact id
  have hreach : Reach (watchedCall oneModule 32 littleEndian) (Respects oneModule) lockStart s :=
    Reach.of_foldlM .refl hquiet hrun
  have hprotected := (ownership_reach oneModule 32 littleEndian _ _ s hreach).1
  cases hrun
  refine ⟨_, hreach, rfl, _, rfl, hprotected (1, .cvorg false (.sOutGain false 2)) _ 0 0 ?_ rfl rfl (by decide)⟩
  exact fun m X _ _ _ => id

/-- Client 0 holds the module, and the RESET of client 1 sets its gain back to 20 dB. -/
theorem not_ownership_reset : ∃ s s', Reach (watchedCall oneModule 32 littleEndian) (fun _ _ => True) lockStart s ∧
    s.holder 0 = some 0 ∧
      watchedCall oneModule 32 littleEndian s (1, .skel (.reset zeroChannels fun _ => 0)) = some s' ∧
      ((s.driver.modules 0).hw.channels 0).outgain = 14 ∧ ((s'.driver.modules 0).hw.channels 0).outgain = 20 := by
  obtain ⟨s, hrun⟩ : ∃ s, lockRun.foldlM (watchedCall oneModule 32 littleEndian) lockStart = some s := ⟨_, rfl⟩
  have hreach : Reach (watchedCall oneModule 32 littleEndian) (fun _ _ => True) lockStart s :=
    Reach.of_foldlM .refl (fun _ _ _ => trivial) hrun
  cases hrun
  exact ⟨_, _, hreach, rfl, rfl, rfl, rfl⟩

end Example

end HtDrivers.Cvorg
