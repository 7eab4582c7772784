import HtDrivers.Icv196.Lines
import HtDrivers.Lib.Transition

/-! The interrupts of a line are enabled exactly while clients are connected to it, and the tables that tell the same
in other forms agree. Every operation changes one line of one module, so that one lemma serves for all. -/
namespace HtDrivers.Icv196
open HtDrivers.Lib.Masks HtDrivers.Lib.Transition
set_option autoImplicit false

/-! ## Lines of one module -/

/-- The bit of a line in the pattern mask register of its port. -/
def patternBit (chip : Z8536) (i : ℕ) : Bool :=
  (chip.ptrMsk (linePort i)).getLsbD (if portAnln ≤ i then i - portAnln else i)

/-- Which lines are enabled, in the context of the line and in the masks. -/
structure Enabled (status masks : ℕ → Prop) (mctxt : ModuleCtxt) : Prop where
  status : ∀ i < icvLineNb, (mctxt.lines i).status = .enabled ↔ status i
  mask : ∀ i < icvLineNb, mctxt.intEnMask.getLsbD i = true ↔ masks i
  pattern : mctxt.chip.itVct .a = mctxt.vect → ∀ i < icvLineNb, patternBit mctxt.chip i = true ↔ masks i

section Module
variable {mctxt : ModuleCtxt} {status masks : ℕ → Prop} {k : ℕ}

/-- The other fields of the contexts do not matter. -/
theorem Enabled.setLine (h : Enabled status masks mctxt) {f : LineCtxt → LineCtxt}
    (hf : ∀ lctxt, (f lctxt).status = lctxt.status) : Enabled status masks (setLine mctxt k f) where
  status i hi := by
    rw [← h.status i hi]
    simp only [Icv196.setLine, Function.update_apply]
    split
    · rename_i hik
      rw [hf, hik]
    · rfl
  mask := h.mask
  pattern := h.pattern

theorem patternBit_enable {chip : Z8536} {i : ℕ} (hi : i < icvLineNb) (hk : k < icvLineNb) :
    patternBit (changePort (· ||| lineMask k) (linePort k) chip) i = true ↔ patternBit chip i = true ∨ i = k := by
  unfold icvLineNb at hi hk
  unfold patternBit changePort linePort lineMask portAnln
  dsimp only
  by_cases hpi : 8 ≤ i
  · by_cases hpk : 8 ≤ k
    · rw [if_pos hpi, if_pos hpk, if_pos hpi, if_pos hpk, Function.update_self, or_twoPow_bit_of_lt (by omega)]
      exact or_congr_right (by omega)
    · rw [if_pos hpi, if_neg hpk, Function.update_of_ne (by decide), or_iff_left (by omega)]
  · by_cases hpk : 8 ≤ k
    · rw [if_neg hpi, if_pos hpk, Function.update_of_ne (by decide), or_iff_left (by omega)]
    · rw [if_neg hpi, if_neg hpk, if_neg hpi, if_neg hpk, Function.update_self, or_twoPow_bit_of_lt (by omega)]

theorem patternBit_disable {chip : Z8536} {i : ℕ} (hi : i < icvLineNb) (hk : k < icvLineNb) :
    patternBit (changePort (· &&& ~~~lineMask k) (linePort k) chip) i = true ↔ patternBit chip i = true ∧ i ≠ k := by
  unfold icvLineNb at hi hk
  unfold patternBit changePort linePort lineMask portAnln
  dsimp only
  by_cases hpi : 8 ≤ i
  · by_cases hpk : 8 ≤ k
    · rw [if_pos hpi, if_pos hpk, if_pos hpi, if_pos hpk, Function.update_self, and_not_twoPow_bit]
      exact and_congr_right fun _ => by omega
    · rw [if_pos hpi, if_neg hpk, Function.update_of_ne (by decide), and_iff_left (by omega)]
  · by_cases hpk : 8 ≤ k
    · rw [if_neg hpi, if_pos hpk, Function.update_of_ne (by decide), and_iff_left (by omega)]
    · rw [if_neg hpi, if_neg hpk, if_neg hpi, if_neg hpk, Function.update_self, and_not_twoPow_bit]

theorem Enabled.enable (h : Enabled status masks mctxt) (hk : k < icvLineNb) :
    Enabled (fun i => status i ∨ i = k) (fun i => masks i ∨ i = k) (enableLine mctxt k) where
  status i hi := by
    simp only [enableLine, Icv196.setLine, Function.update_apply]
    split
    · rename_i hik
      simp [hik]
    · rename_i hik
      rw [h.status i hi, or_iff_left hik]
  mask i hi := by
    rw [← h.mask i hi]
    exact or_twoPow_bit_of_lt hi
  pattern hvect i hi := by
    rw [← h.pattern hvect i hi]
    exact patternBit_enable hi hk

theorem Enabled.disable (h : Enabled status masks mctxt) (hk : k < icvLineNb) :
    Enabled (fun i => status i ∧ i ≠ k) (fun i => masks i ∧ i ≠ k) (disableLine mctxt k) where
  status i hi := by
    simp only [disableLine, Icv196.setLine, Function.update_apply]
    split
    · rename_i hik
      simp [hik]
    · rename_i hik
      rw [h.status i hi, and_iff_left hik]
  mask i hi := by
    rw [← h.mask i hi]
    exact and_not_twoPow_bit
  pattern hvect i hi := by
    rw [← h.pattern hvect i hi]
    exact patternBit_disable hi hk

theorem Enabled.congr (h : Enabled status masks mctxt) {status' masks' : ℕ → Prop}
    (hs : ∀ i < icvLineNb, status i ↔ status' i)
    (hm : ∀ i < icvLineNb, masks i ↔ masks' i) : Enabled status' masks' mctxt where
  status i hi := (h.status i hi).trans (hs i hi)
  mask i hi := (h.mask i hi).trans (hm i hi)
  pattern hvect i hi := (h.pattern hvect i hi).trans (hm i hi)

theorem enabled_initHW (h : ∀ i < icvLineNb, (mctxt.lines i).status = .enabled ↔ status i) :
    Enabled status (fun _ => False) (icvModuleInitHW mctxt) where
  status := h
  mask i _ := by simp [icvModuleInitHW]
  pattern _ i _ := by simp [icvModuleInitHW, patternBit]

/-- Every line with subscribers is enabled by the second loop of the reinitialisation. -/
theorem Enabled.reenable (h : Enabled status masks mctxt) (active : ℕ → ℤ) :
    Enabled (fun i => status i ∨ (i < icvLineNb ∧ active i ≠ 0)) (fun i => masks i ∨ (i < icvLineNb ∧ active i ≠ 0))
      (reenableLines mctxt active) := by
  suffices hrange : ∀ n ≤ icvLineNb, Enabled (fun i => status i ∨ (i < n ∧ active i ≠ 0))
    (fun i => masks i ∨ (i < n ∧ active i ≠ 0))
      ((List.range n).foldl
        (fun mctxt i => Icv196.setLine (if active i ≠ 0 then enableLine mctxt i else mctxt) i
          fun lctxt => { lctxt with reset := true })
        mctxt) from hrange icvLineNb le_rfl
  intro n hn
  induction n with
  | zero => exact h.congr (fun i _ => by simp) (fun i _ => by simp)
  | succ n ih =>
    rw [List.range_succ, List.foldl_append, List.foldl_cons, List.foldl_nil]
    have hbefore := ih (by omega)
    refine Enabled.setLine ?_ fun _ => rfl
    by_cases hactive : active n ≠ 0
    · rw [if_pos hactive]
      have hstep : ∀ i, (i < n ∧ active i ≠ 0) ∨ i = n ↔ i < n + 1 ∧ active i ≠ 0 := by
        intro i
        constructor
        · rintro (⟨hi, ha⟩ | rfl)
          · exact ⟨by omega, ha⟩
          · exact ⟨by omega, hactive⟩
        · rintro ⟨hi, ha⟩
          by_cases hin : i = n
          · exact .inr hin
          · exact .inl ⟨by omega, ha⟩
      exact (hbefore.enable (by omega)).congr (fun i _ => by rw [or_assoc, hstep]) (fun i _ => by rw [or_assoc, hstep])
    · rw [if_neg hactive]
      have hstep : ∀ i, (i < n ∧ active i ≠ 0) ↔ i < n + 1 ∧ active i ≠ 0 := by
        intro i
        refine and_congr_left fun ha => ?_
        have hin : i ≠ n := by
          rintro rfl
          exact hactive ha
        omega
      exact hbefore.congr (fun i _ => by rw [hstep]) (fun i _ => by rw [hstep])

/-- Afterwards the module has its settings, and the masks of its active lines. -/
theorem Enabled.reinit {active : ℕ → ℤ} (h : Enabled (fun i => active i ≠ 0) (fun i => active i ≠ 0) mctxt) :
    Enabled (fun i => active i ≠ 0) (fun i => active i ≠ 0) (icvModuleReinit mctxt active) := by
  unfold icvModuleReinit
  split
  · have hinit : Enabled (fun i => active i ≠ 0) (fun _ => False)
        (icvModuleInitHW { mctxt with lines := fun i => { mctxt.lines i with reset := true } }) :=
      enabled_initHW fun i hi => h.status i hi
    refine (hinit.reenable active).congr (fun i hi => ?_) (fun i hi => ?_)
    · exact or_iff_left_of_imp And.right
    · rw [false_or, and_iff_right hi]
  · exact h

end Module

/-! ## Steps -/

/-- `lose` stands for a reset of the module, which finds any registers behind it except for the vector. -/
inductive LineStep
  | openFile (chan : ℕ)
  | close (chan : ℕ)
  | connect (chan group index : ℕ) (mode : BitVec 32)
  | disconnect (chan group index : ℕ)
  | readTimeout
  | lose (m : ℕ) (chip : Z8536)

/-- A client calls with a file that it has open. -/
def lineStep (s : IcvStatics) : LineStep → Option IcvStatics
  | .openFile chan => some (icv196Open s chan).1
  | .close chan => if s.inuse chan = 0 then none else some (icv196Close s chan)
  | .connect chan group index mode => if s.inuse chan = 0 then none else some (ioctlConnect s chan group index mode).1
  | .disconnect chan group index => if s.inuse chan = 0 then none else some (ioctlDisconnect s chan group index).1
  | .readTimeout => some (readTimeout s)
  | .lose m chip => if chip.itVct .a = (s.modules m).vect
  then none else some (modifyModule s m fun mctxt => { mctxt with chip := chip })

/-- `Enabled` for the lines that have subscribers. -/
def ModuleOk (s : IcvStatics) (m : ℕ) : Prop :=
  Enabled (fun i => s.bookings.curNb (cnvrtUserLine m i) ≠ 0) (fun i => s.bookings.curNb (cnvrtUserLine m i) ≠ 0)
    (s.modules m)

structure LinesOk (s : IcvStatics) : Prop where
  booked : Booked s.bookings
  modules : ∀ m, ModuleOk s m
  handles : ∀ chan line, s.bookings.cmap (chan, line) = true → line ∈ cmapOrder ∧ lineHdlDir s line = true
  closed : ∀ chan line, s.inuse chan = 0 → s.bookings.cmap (chan, line) = false

section Steps
variable {s t : IcvStatics} {chan group index m line : ℕ} {f : ModuleCtxt → ModuleCtxt}

theorem cnvrtUserLine_div (hindex : index < icvLineNb) : cnvrtUserLine group index / icvLineNb = group := by
  unfold cnvrtUserLine icvLineNb at *
  omega

theorem cnvrtUserLine_mod (hindex : index < icvLineNb) : cnvrtUserLine group index % icvLineNb = index := by
  unfold cnvrtUserLine icvLineNb at *
  omega

theorem cnvrtUserLine_eq_iff {i : ℕ} (hindex : index < icvLineNb) (hi : i < icvLineNb) :
    cnvrtUserLine m i = cnvrtUserLine group index ↔ m = group ∧ i = index := by
  unfold cnvrtUserLine icvLineNb at *
  omega

/-- The modules do not matter to the handles, nor do the rings. -/
theorem LinesOk.modify (h : LinesOk s) (hm : ModuleOk (modifyModule s m f) m) : LinesOk (modifyModule s m f) where
  booked := h.booked
  modules k := by
    by_cases hk : k = m
    · rw [hk]
      exact hm
    · unfold ModuleOk modifyModule
      dsimp only
      rw [Function.update_of_ne hk]
      exact h.modules k
  handles := h.handles
  closed := h.closed

theorem moduleOk_modify : ModuleOk (modifyModule s m f) m ↔
    Enabled (fun i => s.bookings.curNb (cnvrtUserLine m i) ≠ 0) (fun i => s.bookings.curNb (cnvrtUserLine m i) ≠ 0)
      (f (s.modules m)) := by
  unfold ModuleOk modifyModule
  dsimp only
  rw [Function.update_self]

theorem LinesOk.reinit (h : LinesOk s) : LinesOk (reinitModule s m) :=
  h.modify (moduleOk_modify.mpr (h.modules m).reinit)

theorem LinesOk.setLine (h : LinesOk s) {g : LineCtxt → LineCtxt} (hg : ∀ lctxt, (g lctxt).status = lctxt.status) :
    LinesOk (modifyModule s m fun mctxt => setLine mctxt index g) :=
  h.modify (moduleOk_modify.mpr ((h.modules m).setLine hg))

theorem readTimeout_ok (h : LinesOk s) : LinesOk (readTimeout s) := by
  unfold readTimeout
  generalize List.range icvModuleNb = ms
  induction ms generalizing s with
  | nil => exact h
  | cons m ms ih =>
    rw [List.foldl_cons]
    split
    · exact ih h.reinit
    · exact ih h

section Clients
variable {b : Bookings}

theorem curNb_nonneg (h : Booked s.bookings) (line : ℕ) : 0 ≤ s.bookings.curNb line := by
  rw [h.curNb]
  exact Int.natCast_nonneg _

/-- The counter of one line changes, and its module with it. -/
theorem modulesOk_change (h : ∀ m, ModuleOk s m) {n : ℤ} (hindex : index < icvLineNb)
    (hcur : b.curNb = Function.update s.bookings.curNb (cnvrtUserLine group index) n)
    (hf : Enabled (fun i => b.curNb (cnvrtUserLine group i) ≠ 0) (fun i => b.curNb (cnvrtUserLine group i) ≠ 0)
      (f (s.modules group))) (m : ℕ) : ModuleOk (modifyModule { s with bookings := b } group f) m := by
  by_cases hm : m = group
  · subst hm
    exact moduleOk_modify.mpr hf
  · unfold ModuleOk modifyModule
    dsimp only
    rw [Function.update_of_ne hm]
    have hsame : ∀ i < icvLineNb, s.bookings.curNb (cnvrtUserLine m i) ≠ 0 ↔ b.curNb (cnvrtUserLine m i) ≠ 0 := by
      intro i hi
      rw [hcur, Function.update_of_ne]
      rw [ne_eq, cnvrtUserLine_eq_iff hindex hi]
      exact fun hboth => hm hboth.1
    exact (h m).congr hsame hsame

theorem update_curNb {i : ℕ} {n : ℤ} (hindex : index < icvLineNb) (hi : i < icvLineNb)
    (hcur : b.curNb = Function.update s.bookings.curNb (cnvrtUserLine group index) n) (hne : i ≠ index) :
    b.curNb (cnvrtUserLine group i) = s.bookings.curNb (cnvrtUserLine group i) := by
  rw [hcur, Function.update_of_ne]
  rw [ne_eq, cnvrtUserLine_eq_iff hindex hi]
  exact fun hboth => hne hboth.2

/-- A client more on a line, whose interrupt is enabled then. -/
theorem LinesOk.book (h : LinesOk s) (hopen : s.inuse chan ≠ 0) (hindex : index < icvLineNb)
    (hline : cnvrtUserLine group index ∈ cmapOrder ∧ lineHdlDir s (cnvrtUserLine group index) = true) {cumul : Bool}
    (hnew : s.bookings.cmap (chan, cnvrtUserLine group index) = false)
    (hbook : lineBooking s.bookings chan (cnvrtUserLine group index) cumul = some b) :
    LinesOk (modifyModule { s with bookings := b } group fun mctxt =>
      if (mctxt.lines index).status = .disabled then enableLine mctxt index else mctxt) := by
  have hbooked := lineBooking_booked h.booked hnew hbook
  have hcur : b.curNb = Function.update s.bookings.curNb (cnvrtUserLine group index)
      (s.bookings.curNb (cnvrtUserLine group index) + 1) := by
    obtain ⟨j, -, rfl⟩ := Option.map_eq_some_iff.mp hbook
    rfl
  have hcmap : b.cmap = Function.update s.bookings.cmap (chan, cnvrtUserLine group index) true := by
    obtain ⟨j, -, rfl⟩ := Option.map_eq_some_iff.mp hbook
    rfl
  have hself : b.curNb (cnvrtUserLine group index) ≠ 0 := by
    have hnonneg := curNb_nonneg h.booked (cnvrtUserLine group index)
    rw [hcur, Function.update_self]
    omega
  have hon : ∀ i < icvLineNb, s.bookings.curNb (cnvrtUserLine group i) ≠ 0 ∨ i = index ↔
    b.curNb (cnvrtUserLine group i) ≠ 0 := by
    intro i hi
    by_cases hidx : i = index
    · subst hidx
      exact iff_of_true (.inr rfl) hself
    · rw [update_curNb hindex hi hcur hidx, or_iff_left hidx]
  refine ⟨hbooked, modulesOk_change h.modules hindex hcur ?_, ?_, ?_⟩
  · split
    · exact ((h.modules group).enable hindex).congr hon hon
    · rename_i hstatus
      have hactive : s.bookings.curNb (cnvrtUserLine group index) ≠ 0 := by
        rw [← (h.modules group).status index hindex]
        cases hcase : ((s.modules group).lines index).status with
        | enabled => rfl
        | disabled => exact absurd hcase hstatus
      have hon' : ∀ i < icvLineNb, s.bookings.curNb (cnvrtUserLine group i) ≠ 0 ↔
        b.curNb (cnvrtUserLine group i) ≠ 0 := by
        intro i hi
        rw [← hon i hi]
        exact (or_iff_left_of_imp fun hidx => hidx ▸ hactive).symm
      exact (h.modules group).congr hon' hon'
  · intro c l hc
    change b.cmap (c, l) = true at hc
    rw [hcmap, Function.update_apply] at hc
    split at hc
    · rename_i heq
      rw [(Prod.mk.inj heq).2]
      exact hline
    · exact h.handles c l hc
  · intro c l hc
    change b.cmap (c, l) = false
    rw [hcmap, Function.update_of_ne]
    · exact h.closed c l hc
    · intro heq
      rw [(Prod.mk.inj heq).1] at hc
      exact hopen hc

theorem dropLine_eq (s : IcvStatics) (b : Bookings) (hindex : index < icvLineNb) :
    dropLine s b (cnvrtUserLine group index) = modifyModule { s with bookings := b } group fun mctxt =>
      if b.curNb (cnvrtUserLine group index) = 0 then disableLine mctxt index else mctxt := by
  unfold dropLine
  dsimp only
  rw [cnvrtUserLine_div hindex, cnvrtUserLine_mod hindex]
  split
  · rfl
  · unfold modifyModule
    rw [Function.update_eq_self]

/-- A client less, and the interrupt is disabled behind the last one. -/
theorem LinesOk.drop (h : LinesOk s) (hbook : lineUnBooking s.bookings chan line = some b) :
    LinesOk (dropLine s b line) := by
  have hbooked := lineUnBooking_booked h.booked hbook
  have hcon : 0 < s.bookings.curNb line := by
    obtain ⟨j, hfind, -⟩ := Option.map_eq_some_iff.mp hbook
    obtain ⟨hj, hring⟩ := findSubscriber_eq_some hfind
    rw [h.booked.curNb, Int.natCast_pos, List.countP_pos_iff]
    exact ⟨j, List.mem_range.mpr hj, by rw [hring]; rfl⟩
  have hcur : b.curNb = Function.update s.bookings.curNb line (s.bookings.curNb line - 1) := by
    obtain ⟨j, -, rfl⟩ := Option.map_eq_some_iff.mp hbook
    rfl
  have hcmap : ∀ c l, b.cmap (c, l) = true → s.bookings.cmap (c, l) = true := by
    obtain ⟨j, -, rfl⟩ := Option.map_eq_some_iff.mp hbook
    intro c l hc
    change Function.update s.bookings.cmap (chan, line) false (c, l) = true at hc
    rw [Function.update_apply] at hc
    split at hc
    · cases hc
    · exact hc
  obtain ⟨group, index, hindex, rfl⟩ : ∃ group index, index < icvLineNb ∧ line = cnvrtUserLine group index :=
    ⟨line / icvLineNb, line % icvLineNb, Nat.mod_lt _ (by decide), by unfold cnvrtUserLine icvLineNb; omega⟩
  have hself : b.curNb (cnvrtUserLine group index) = s.bookings.curNb (cnvrtUserLine group index) - 1 := by
    rw [hcur, Function.update_self]
  rw [dropLine_eq s b hindex]
  refine ⟨hbooked, modulesOk_change h.modules hindex hcur ?_, ?_, ?_⟩
  · split
    · rename_i hlast
      have hon : ∀ i < icvLineNb, s.bookings.curNb (cnvrtUserLine group i) ≠ 0 ∧ i ≠ index ↔
          b.curNb (cnvrtUserLine group i) ≠ 0 := by
        intro i hi
        by_cases hidx : i = index
        · subst hidx
          exact iff_of_false (fun hboth => hboth.2 rfl) fun hne => hne hlast
        · rw [update_curNb hindex hi hcur hidx, and_iff_left hidx]
      exact ((h.modules group).disable hindex).congr hon hon
    · rename_i hlast
      have hon : ∀ i < icvLineNb, s.bookings.curNb (cnvrtUserLine group i) ≠ 0 ↔
        b.curNb (cnvrtUserLine group i) ≠ 0 := by
        intro i hi
        by_cases hidx : i = index
        · subst hidx
          exact iff_of_true hcon.ne' hlast
        · rw [update_curNb hindex hi hcur hidx]
      exact (h.modules group).congr hon hon
  · intro c l hc
    exact h.handles c l (hcmap c l hc)
  · intro c l hc
    have hold := h.closed c l hc
    by_contra hset
    rw [hcmap c l (Bool.eq_true_of_not_eq_false hset)] at hold
    cases hold

theorem curNb_of_cmap (h : Booked s.bookings) (hcon : s.bookings.cmap (chan, line) = true) :
    s.bookings.curNb line ≠ 0 := by
  obtain ⟨j, hj⟩ := (h.cmap line chan).mp hcon
  have hpos : 0 < (List.range icvSubscriberNb).countP fun j => (s.bookings.subs (line, j)).ring.isSome := by
    rw [List.countP_pos_iff]
    exact ⟨j, List.mem_range.mpr (h.entry line j chan hj), by rw [hj]; rfl⟩
  rw [h.curNb]
  omega

theorem userLine_ok (h : userLine s group index = .ok line) :
    line = cnvrtUserLine group index ∧ group < icvModuleNb ∧ index < icvLineNb ∧ lineHdlDir s line = true := by
  unfold userLine at h
  split at h
  · cases h
  rename_i hgroup
  split at h
  · cases h
  rename_i hindex
  split at h
  · cases h
  dsimp only at h
  split at h
  · cases h
  split at h
  · rename_i hdir
    cases h
    unfold icvModuleNb at *
    unfold icvLineNb at *
    exact ⟨rfl, by omega, by omega, hdir⟩
  · cases h

theorem mem_cmapOrder : ∀ line < icvModuleNb * icvLineNb, line ∈ cmapOrder := by decide

/-- What a new connection changes before it is booked. -/
structure Prepared (s u : IcvStatics) : Prop where
  ok : LinesOk s → LinesOk u
  bookings : u.bookings = s.bookings
  inuse : u.inuse = s.inuse
  mcntr : u.mcntr = s.mcntr
  modules : ∀ m, (u.modules m).chip = (s.modules m).chip ∧ (u.modules m).vect = (s.modules m).vect

theorem prepared (s : IcvStatics) (group index : ℕ) (mode : BitVec 32) :
    Prepared s (if mode &&& icvDisable ≠ 0 then modifyModule s group fun mctxt =>
      setLine mctxt index fun lctxt => { lctxt with reenable := false } else s) := by
  split
  · refine ⟨fun h => h.setLine fun _ => rfl, rfl, rfl, rfl, fun m => ?_⟩
    unfold modifyModule
    dsimp only
    rw [Function.update_apply]
    split
    · rename_i hm
      rw [hm]
      exact ⟨rfl, rfl⟩
    · exact ⟨rfl, rfl⟩
  · exact ⟨fun h => h, rfl, rfl, rfl, fun _ => ⟨rfl, rfl⟩⟩

theorem ioctlConnect_ok (h : LinesOk s) (hopen : s.inuse chan ≠ 0) (mode : BitVec 32) :
    LinesOk (ioctlConnect s chan group index mode).1 := by
  unfold ioctlConnect
  split
  · exact h
  cases hline : userLine s group index with
  | error e => exact h
  | ok line =>
    obtain ⟨rfl, hgroup, hindex, hdir⟩ := userLine_ok hline
    dsimp only
    split
    · rename_i hcon
      apply h.modify
      rw [moduleOk_modify]
      split
      · have hon : ∀ i < icvLineNb, s.bookings.curNb (cnvrtUserLine group i) ≠ 0 ∨ i = index ↔
            s.bookings.curNb (cnvrtUserLine group i) ≠ 0 := by
          intro i _
          exact or_iff_left_of_imp fun hi => hi ▸ curNb_of_cmap h.booked hcon
        exact ((h.modules group).enable hindex).congr hon hon
      · exact h.modules group
    · rename_i hcon
      have hmem : cnvrtUserLine group index ∈ cmapOrder := by
        apply mem_cmapOrder
        unfold cnvrtUserLine icvModuleNb icvLineNb at *
        omega
      have hprepared := prepared s group index mode
      unfold connectNew
      generalize (if mode &&& icvDisable ≠ 0 then modifyModule s group fun mctxt =>
        setLine mctxt index fun lctxt => { lctxt with reenable := false } else s) = u at hprepared
      obtain ⟨hready, hb, hinuse, hmcntr, -⟩ := hprepared
      have hreinit := (hready h).reinit (m := group)
      cases hbook : lineBooking (reinitModule u group).bookings chan (cnvrtUserLine group index)
        (mode &&& icvCumul ≠ 0) with
      | none =>
        dsimp only
        rw [hbook]
        exact hreinit
      | some b =>
        dsimp only
        rw [hbook]
        refine LinesOk.setLine ?_ fun _ => rfl
        refine LinesOk.book hreinit ?_ hindex ?_ ?_ hbook
        · change u.inuse chan ≠ 0
          rw [hinuse]
          exact hopen
        · refine ⟨hmem, ?_⟩
          change decide (cnvrtUserLine group index / icvLineNb < u.mcntr) = true
          rw [hmcntr]
          exact hdir
        · change u.bookings.cmap (chan, cnvrtUserLine group index) = false
          rw [hb]
          exact Bool.eq_false_iff.mpr hcon

theorem ioctlDisconnect_ok (h : LinesOk s) : LinesOk (ioctlDisconnect s chan group index).1 := by
  unfold ioctlDisconnect
  cases userLine s group index with
  | error e => exact h
  | ok line =>
    dsimp only
    split
    · cases hbook : lineUnBooking s.bookings chan line with
      | none => exact h
      | some b =>
        dsimp only
        split
        · exact (h.drop hbook).setLine fun _ => rfl
        · exact h.drop hbook
    · exact h

theorem clrLine_ok (h : LinesOk s) (chan line : ℕ) :
    LinesOk (clrLine s chan line) ∧ (clrLine s chan line).inuse = s.inuse ∧
      (clrLine s chan line).bookings.cmap (chan, line) = false ∧
      ∀ c l, s.bookings.cmap (c, l) = false → (clrLine s chan line).bookings.cmap (c, l) = false := by
  unfold clrLine
  split
  · rename_i hcon
    obtain ⟨j, hfind⟩ := findSubscriber_connected h.booked hcon.1
    obtain ⟨b, hbook⟩ : ∃ b, lineUnBooking s.bookings chan line = some b := by
      unfold lineUnBooking
      rw [hfind]
      exact ⟨_, rfl⟩
    have hcmap : b.cmap = Function.update s.bookings.cmap (chan, line) false := by
      obtain ⟨j, -, rfl⟩ := Option.map_eq_some_iff.mp hbook
      rfl
    have hdropped : ∀ b : Bookings, (dropLine s b line).bookings = b ∧ (dropLine s b line).inuse = s.inuse := by
      intro b
      unfold dropLine
      dsimp only
      split
      · exact ⟨rfl, rfl⟩
      · exact ⟨rfl, rfl⟩
    rw [hbook, Option.getD_some, (hdropped b).1, (hdropped b).2, hcmap]
    refine ⟨h.drop hbook, rfl, Function.update_self .., fun c l hc => ?_⟩
    rw [Function.update_apply]
    split
    · rfl
    · exact hc
  · rename_i hcon
    refine ⟨h, rfl, ?_, fun _ _ hc => hc⟩
    by_contra hset
    have hset := Bool.eq_true_of_not_eq_false hset
    exact hcon ⟨hset, (h.handles chan line hset).2⟩

/-- The scan leaves none of the lines with a connection. -/
theorem clrLines_ok (chan : ℕ) (lines : List ℕ) (h : LinesOk s) :
    LinesOk (lines.foldl (fun s line => clrLine s chan line) s) ∧
      (lines.foldl (fun s line => clrLine s chan line) s).inuse = s.inuse ∧
      ∀ l, l ∈ lines ∨ s.bookings.cmap (chan, l) = false →
        (lines.foldl (fun s line => clrLine s chan line) s).bookings.cmap (chan, l) = false := by
  induction lines generalizing s with
  | nil =>
    refine ⟨h, rfl, fun l hl => ?_⟩
    exact hl.resolve_left List.not_mem_nil
  | cons line lines ih =>
    rw [List.foldl_cons]
    obtain ⟨hline, hinuse, hself, hkept⟩ := clrLine_ok h chan line
    obtain ⟨hall, hinuse', hcleared⟩ := ih hline
    refine ⟨hall, hinuse'.trans hinuse, fun l hl => hcleared l ?_⟩
    rw [List.mem_cons] at hl
    rcases hl with (rfl | hl) | hl
    · exact .inr hself
    · exact .inl hl
    · exact .inr (hkept chan l hl)

/-- Neither the ring of a client nor an empty map matters. -/
theorem LinesOk.clear (h : LinesOk s) {ring : RingBuffer ℤ} (hnone : ∀ l, s.bookings.cmap (chan, l) = false) (n : ℤ) :
    LinesOk { s with
      inuse := Function.update s.inuse chan n
      bookings := { s.bookings with
        ring := Function.update s.bookings.ring chan ring
        cmap := fun i => if i.1 = chan then false else s.bookings.cmap i } } := by
  have hcmap : (fun i : ℕ × ℕ => if i.1 = chan then false else s.bookings.cmap i) = s.bookings.cmap := by
    funext i
    split
    · rename_i hi
      rw [← hnone i.2, ← hi]
    · rfl
  rw [hcmap]
  refine ⟨h.booked.frame (fun _ => rfl) rfl rfl, h.modules, h.handles, fun c l hc => ?_⟩
  by_cases hchan : c = chan
  · rw [hchan]
    exact hnone l
  · dsimp only at hc
    rw [Function.update_of_ne hchan] at hc
    exact h.closed c l hc

theorem icv196Open_ok (h : LinesOk s) : LinesOk (icv196Open s chan).1 := by
  unfold icv196Open
  split
  · exact h
  · rename_i hclosed
    exact h.clear (fun l => h.closed chan l (not_not.mp hclosed)) 1

theorem icv196Close_ok (h : LinesOk s) : LinesOk (icv196Close s chan) := by
  obtain ⟨hscan, -, hnone⟩ := clrLines_ok chan cmapOrder h
  have hall : ∀ l, (cmapOrder.foldl (fun s line => clrLine s chan line) s).bookings.cmap (chan, l) = false := by
    intro l
    by_cases hl : l ∈ cmapOrder
    · exact hnone l (.inl hl)
    · by_contra hset
      exact hl (hscan.handles chan l (Bool.eq_true_of_not_eq_false hset)).1
  unfold icv196Close clrSynchro
  dsimp only
  generalize cmapOrder.foldl (fun s line => clrLine s chan line) s = u at hscan hall
  exact hscan.clear hall _

theorem lineStep_ok {act : LineStep} (h : LinesOk s) (hnext : lineStep s act = some t) : LinesOk t := by
  cases act with
  | openFile chan =>
    rw [← Option.some.inj hnext]
    exact icv196Open_ok h
  | close chan =>
    obtain ⟨-, hrun⟩ := Option.ite_none_left_eq_some.mp hnext
    rw [← Option.some.inj hrun]
    exact icv196Close_ok h
  | connect chan group index mode =>
    obtain ⟨hopen, hrun⟩ := Option.ite_none_left_eq_some.mp hnext
    rw [← Option.some.inj hrun]
    exact ioctlConnect_ok h hopen mode
  | disconnect chan group index =>
    obtain ⟨-, hrun⟩ := Option.ite_none_left_eq_some.mp hnext
    rw [← Option.some.inj hrun]
    exact ioctlDisconnect_ok h
  | readTimeout =>
    rw [← Option.some.inj hnext]
    exact readTimeout_ok h
  | lose m chip =>
    obtain ⟨hvect, hrun⟩ := Option.ite_none_left_eq_some.mp hnext
    rw [← Option.some.inj hrun]
    apply h.modify
    rw [moduleOk_modify]
    exact ⟨(h.modules m).status, (h.modules m).mask, fun hsame => absurd hsame hvect⟩

end Clients

end Steps

theorem icvInit_ok (mcntr : ℕ) (vect : ℕ → BitVec 8) : LinesOk (icvInit mcntr vect) where
  booked := bookingsInit_booked
  modules m := by
    have hdisabled : ∀ i < icvLineNb, LineStatus.disabled = .enabled ↔ False := by
      intro i _
      simp
    refine (enabled_initHW hdisabled).congr ?_ ?_
    · intro i _
      simp [icvInit, bookingsInit]
    · intro i _
      simp [icvInit, bookingsInit]
  handles _ _ h := by cases h
  closed _ _ _ := rfl

/-! ## Failed connections -/

/-- What is recorded of the lines; the registers only count where the module has its settings. -/
structure SameLines (s t : IcvStatics) : Prop where
  bookings : t.bookings = s.bookings
  mask : ∀ m, (t.modules m).intEnMask = (s.modules m).intEnMask
  status : ∀ m, ∀ i < icvLineNb, ((t.modules m).lines i).status = ((s.modules m).lines i).status
  chip : ∀ m, (s.modules m).chip.itVct .a = (s.modules m).vect → (t.modules m).chip = (s.modules m).chip

section Failed
variable {s t : IcvStatics} {chan group index : ℕ} {mode : BitVec 32}

theorem SameLines.refl (s : IcvStatics) : SameLines s s := ⟨rfl, fun _ => rfl, fun _ _ _ => rfl, fun _ _ => rfl⟩

/-- The masks and the status are given by the counters. -/
theorem SameLines.of_ok (hs : LinesOk s) (ht : LinesOk t) (hb : t.bookings = s.bookings)
    (hchip : ∀ m, (s.modules m).chip.itVct .a = (s.modules m).vect → (t.modules m).chip = (s.modules m).chip) :
    SameLines s t where
  bookings := hb
  mask m := by
    apply BitVec.eq_of_getLsbD_eq
    intro i hi
    have htm := (ht.modules m).mask i hi
    rw [hb, ← (hs.modules m).mask i hi] at htm
    exact Bool.eq_iff_iff.mpr htm
  status m i hi := by
    have htm := (ht.modules m).status i hi
    rw [hb, ← (hs.modules m).status i hi] at htm
    cases hold : ((s.modules m).lines i).status with
    | enabled => exact htm.mpr hold
    | disabled =>
      cases hnew : ((t.modules m).lines i).status with
      | disabled => rfl
      | enabled =>
        rw [htm.mp hnew] at hold
        cases hold
  chip := hchip

theorem ioctlConnect_failed (h : LinesOk s) (hfail : (ioctlConnect s chan group index mode).2 ≠ none) :
    SameLines s (ioctlConnect s chan group index mode).1 := by
  unfold ioctlConnect at *
  split
  · exact .refl s
  rename_i hmode
  rw [if_neg hmode] at hfail
  cases hline : userLine s group index with
  | error e => exact .refl s
  | ok line =>
    simp only [hline] at hfail
    dsimp only
    split
    · rename_i hcon
      rw [if_pos hcon] at hfail
      exact absurd rfl hfail
    · rename_i hcon
      rw [if_neg hcon] at hfail
      unfold connectNew at *
      have hprepared := prepared s group index mode
      generalize (if mode &&& icvDisable ≠ 0 then modifyModule s group fun mctxt =>
        setLine mctxt index fun lctxt => { lctxt with reenable := false } else s) = u at hprepared hfail
      obtain ⟨hready, hb, -, -, hmodules⟩ := hprepared
      cases hbook : lineBooking (reinitModule u group).bookings chan (cnvrtUserLine group index)
        (mode &&& icvCumul ≠ 0) with
      | some b =>
        dsimp only at hfail
        rw [hbook] at hfail
        exact absurd rfl hfail
      | none =>
        dsimp only
        rw [hbook]
        refine .of_ok h (hready h).reinit hb fun m hvect => ?_
        rw [← (hmodules m).1]
        rw [← (hmodules m).1, ← (hmodules m).2] at hvect
        unfold reinitModule modifyModule
        dsimp only
        rw [Function.update_apply]
        split
        · rename_i hm
          rw [← hm]
          unfold icvModuleReinit
          rw [if_neg (not_not.mpr hvect)]
        · rfl

end Failed

/-! ## Runs -/

section Runs
variable {s : IcvStatics} {mcntr : ℕ} {vect : ℕ → BitVec 8}

theorem lines_ok (h : Reach lineStep (fun _ _ => True) (icvInit mcntr vect) s) : LinesOk s :=
  h.invariant (icvInit_ok mcntr vect) fun _ _ _ hs _ hnext => lineStep_ok hs hnext

/-- The bookkeeping of all lines agrees in every state, and with the registers of each module that has its settings. -/
theorem lines_consistent (h : Reach lineStep (fun _ _ => True) (icvInit mcntr vect) s) :
    (∀ line, s.bookings.curNb line = (List.range icvSubscriberNb).countP
      fun j => (s.bookings.subs (line, j)).ring.isSome) ∧
    (∀ chan line, (s.bookings.cmap (chan, line) = true ↔ ∃! j, (s.bookings.subs (line, j)).ring = some chan) ∧
      (s.bookings.cmap (chan, line) = false ↔ ∀ j, (s.bookings.subs (line, j)).ring ≠ some chan)) ∧
    (∀ m, ∀ i < icvLineNb,
      ((s.modules m).intEnMask.getLsbD i = true ↔ s.bookings.curNb (cnvrtUserLine m i) ≠ 0) ∧
      (((s.modules m).lines i).status = .enabled ↔ s.bookings.curNb (cnvrtUserLine m i) ≠ 0) ∧
      ((s.modules m).chip.itVct .a = (s.modules m).vect →
        (patternBit (s.modules m).chip i = true ↔ s.bookings.curNb (cnvrtUserLine m i) ≠ 0))) ∧
    ∀ chan group index mode, (ioctlConnect s chan group index mode).2 ≠ none →
      SameLines s (ioctlConnect s chan group index mode).1 := by
  have hs := lines_ok h
  refine ⟨hs.booked.curNb, fun chan line => ⟨?_, ?_⟩, fun m i hi => ?_,
    fun _ _ _ _ hfail => ioctlConnect_failed hs hfail⟩
  · rw [hs.booked.cmap]
    constructor
    · rintro ⟨j, hj⟩
      exact ⟨j, hj, fun k hk => hs.booked.single line k j chan hk hj⟩
    · rintro ⟨j, hj, -⟩
      exact ⟨j, hj⟩
  · rw [← Bool.not_eq_true, hs.booked.cmap, not_exists]
  · exact ⟨(hs.modules m).mask i hi, (hs.modules m).status i hi, fun hvect => (hs.modules m).pattern hvect i hi⟩

end Runs

/-- A client opens its file and connects to line 9 of the first of two modules. -/
def firstConnect : IcvStatics := (ioctlConnect (icv196Open (icvInit 2 fun m => .ofNat 8 (128 + m)) 3).1 3 0 9 0).1

theorem firstConnect_reached :
    Reach lineStep (fun _ _ => True) (icvInit 2 fun m => .ofNat 8 (128 + m)) firstConnect :=
  (Reach.refl.step (a := .openFile 3) trivial rfl).step (a := .connect 3 0 9 0) trivial rfl

theorem firstConnect_consistent : (firstConnect.modules 0).intEnMask.getLsbD 9 = true ∧
    patternBit (firstConnect.modules 0).chip 9 = true ∧ ∃! j, (firstConnect.bookings.subs (9, j)).ring = some 3 := by
  obtain ⟨-, hcmap, hlines, -⟩ := lines_consistent firstConnect_reached
  have hactive : firstConnect.bookings.curNb (cnvrtUserLine 0 9) ≠ 0 := by decide
  have hvect : (firstConnect.modules 0).chip.itVct .a = (firstConnect.modules 0).vect := by decide
  have hbit : firstConnect.bookings.cmap (3, 9) = true := by decide
  obtain ⟨hmask, -, hpattern⟩ := hlines 0 9 (by decide)
  exact ⟨hmask.mpr hactive, (hpattern hvect).mpr hactive, (hcmap 3 9).1.mp hbit⟩

end HtDrivers.Icv196
