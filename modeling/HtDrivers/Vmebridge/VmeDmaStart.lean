import HtDrivers.Vmebridge.Tsi148Tiling
import HtDrivers.Vmebridge.VmeDmaSetup

/-! # What a transfer is started on

`StartsRight` is the contract of `__vme_do_dma`: either the chip is started on a chain that moves
exactly the requested bytes, or an error is returned and it is not started. The contract is kept
exactly when the mapped entries serve the request (`Serves`) or an allocation fails before it matters.
-/
namespace HtDrivers.Vmebridge
open HtDrivers.Lib HtDrivers.Lib.Cut HtDrivers.Lib.Chain HtDrivers.Lib.Words
set_option autoImplicit false

variable {w : ℕ}

/-! ## The contract -/

/-- The requests that `__vme_do_dma` accepts. -/
def Accepted (desc : VmeDma) : Prop :=
  desc.length ≠ 0 ∧ ValidDir desc ∧ desc.src.addru = 0 ∧ desc.dst.addru = 0

instance (desc : VmeDma) : Decidable (Accepted desc) := inferInstanceAs (Decidable (_ ∧ _))

/-- The chip, started on `l`, walks through `cells`. Every descriptor it can come to was allocated for
this request and has been filled since, and their counts add up to the requested length. -/
structure RightChain (desc : VmeDma) (l : Launch w) (cells : List (BitVec w)) (ds : List TsiDmaDesc) : Prop where
  walk : Walks (chipNext l.mem) (l.dnlal.setWidth w) cells
  filled : cells.map l.mem = ds.map some
  own : ∀ a, Reaches (chipNext l.mem) (l.dnlal.setWidth w) a → a ∈ l.hwDescList ∧ (l.mem a).isSome
  total : (ds.map fun d => d.dcnt.toNat).sum = desc.length.toNat

def RightStart (desc : VmeDma) (l : Launch w) : Prop := ∃ cells ds, RightChain desc l cells ds

def StartsRight (ch : Chan w) (desc : VmeDma) (r : Option (Int × VmeDma × Chan w)) : Prop :=
  ∃ rc desc' ch', r = some (rc, desc', ch') ∧
    ((rc < 0 ∧ ch'.launches = ch.launches) ∨ ∃ l, ch'.launches = ch.launches ++ [l] ∧ RightStart desc l)

/-! ## The condition -/

def vmeAddr (desc : VmeDma) : U32 := if desc.dir = vmeDmaToDevice then desc.dst.addrl else desc.src.addrl

theorem getVmeaddr_eq {desc : VmeDma} (hdir : ValidDir desc) : getVmeaddr desc = some (vmeAddr desc) := by
  unfold getVmeaddr vmeAddr
  by_cases h : desc.dir = vmeDmaToDevice
  · rw [if_pos h, if_pos h]
  · rw [if_neg h, if_pos (hdir.resolve_left h), if_neg h]

/-- There is at least one entry, the link loop runs for all of them (none is empty and none reaches the
top of the VME address space or of the bus address type), and they cover the requested length. -/
def Serves (desc : VmeDma) (segs : List (DmaSeg w)) : Prop :=
  segs ≠ [] ∧ linkedEntries desc.inc (vmeAddr desc).toNat segs = segs ∧
    (segs.map fun seg => seg.len.toNat).sum = desc.length.toNat

instance (desc : VmeDma) (segs : List (DmaSeg w)) : Decidable (Serves desc segs) :=
  inferInstanceAs (Decidable (_ ∧ _))

/-- The blocks of the entries that are linked. -/
def linkedPieces (desc : VmeDma) (segs : List (DmaSeg w)) : List Piece :=
  chainPieces desc (vmeAddr desc) (linkedEntries desc.inc (vmeAddr desc).toNat segs)

/-- The descriptors asked of the pool: one for each block, and one more when an entry is left over. -/
def askedDescs (desc : VmeDma) (segs : List (DmaSeg w)) : ℕ :=
  if segs ≠ [] ∧ linkedEntries desc.inc (vmeAddr desc).toNat segs = segs then (linkedPieces desc segs).length
  else (linkedPieces desc segs).length + 1

/-- No block of an entry that is linked reaches the top of the bus address type. -/
def LinkedFit (desc : VmeDma) (segs : List (DmaSeg w)) : Prop :=
  HostFits (tsi148GetBshift desc) desc.inc (vmeAddr desc).toNat
    (linkedEntries desc.inc (vmeAddr desc).toNat segs)

instance (desc : VmeDma) (segs : List (DmaSeg w)) : Decidable (LinkedFit desc segs) :=
  decidableHostFits _ _ _ _

/-- The link loop does not come to a block that reaches the top of the bus address type: there is none,
or the pool refuses one of the descriptors in use by then. -/
def StaysBelowTop (desc : VmeDma) (segs : List (DmaSeg w)) (pool : List (PoolAnswer w)) : Prop :=
  LinkedFit desc segs ∨
    ¬ Supplies (inUseAtTop (tsi148GetBshift desc) desc.inc (vmeAddr desc).toNat
      (linkedEntries desc.inc (vmeAddr desc).toNat segs)) pool

/-! ## Right and wrong chains -/

section Chains
variable {desc : VmeDma} {dsat ddat : U32} {bshift : ℕ} {ch : Chan w} {p : BitVec w} {l : List (BitVec w)}
  {bs : List (Blk w)}

theorem Closed.right_iff (hw : 32 ≤ w) (h : Closed desc dsat ddat bshift ch (p :: l) bs)
    (hdnlal : ch.dnlal = linkWord p) :
    RightStart desc ⟨ch.dnlal, ch.mem, ch.hwDescList⟩ ↔
      ((bs.map Blk.piece).map Piece.len).sum = desc.length.toNat := by
  have hstart : ch.dnlal.setWidth w = p := by
    rw [hdnlal]
    exact linkWord_setWidth hw (h.bus p (List.mem_cons_self ..))
  have hwalk : Walks (chipNext ch.mem) p (p :: l) := h.walks hw rfl
  obtain ⟨ds, hds, hall⟩ := h.cells.read
  have hreads : Reads desc dsat ddat ds bs := hall
  constructor
  · rintro ⟨cells, ds', hright⟩
    have hw' : Walks (chipNext ch.mem) (ch.dnlal.setWidth w) cells := hright.walk
    rw [hstart] at hw'
    obtain rfl := hwalk.unique hw'
    have hsame : ds'.map some = ds.map some := hright.filled.symm.trans hds
    obtain rfl := (List.map_injective_iff.mpr (Option.some_injective _)) hsame
    rw [← hreads.dcnt]
    exact hright.total
  · intro htotal
    refine ⟨p :: l, ds, ?_, hds, ?_, ?_⟩
    · rw [hstart]
      exact hwalk
    · intro a ha
      rw [hstart] at ha
      have hin : a ∈ p :: l := hwalk.mem_of_reaches ha
      have hread : ch.mem a ∈ ds.map some := hds ▸ List.mem_map_of_mem hin
      obtain ⟨d, -, hd⟩ := List.mem_map.mp hread
      refine ⟨h.list ▸ hin, ?_⟩
      change (ch.mem a).isSome = true
      rw [← hd]
      rfl
    · rw [hreads.dcnt]
      exact htotal

theorem Open.not_right (hw : 32 ≤ w) {ps : List (BitVec w)} {c : BitVec w} {pool : List (PoolAnswer w)}
    (h : Open desc dsat ddat bshift ch ps bs c pool) (hdnlal : ch.dnlal = linkWord p)
    (hp : [p] <+: ps ++ [c]) : ¬ RightStart desc ⟨ch.dnlal, ch.mem, ch.hwDescList⟩ := by
  rintro ⟨cells, ds, hright⟩
  have hbus : ∀ q ∈ ps ++ [c], BusAddr q := by
    intro q hq
    apply h.bus
    obtain hq | hq := List.mem_append.mp hq
    · exact List.mem_append_left _ hq
    · rw [List.mem_singleton.mp hq]
      exact List.mem_append_right _ (List.mem_cons_self ..)
  have hstart : ch.dnlal.setWidth w = p := by
    rw [hdnlal]
    exact linkWord_setWidth hw (hbus p (hp.subset (List.mem_cons_self ..)))
  have hchain : (ps ++ [c]).IsChain (Links (chipNext ch.mem)) :=
    h.cells.isChain hw (fun q hq => hbus q (List.mem_append_left _ hq))
      (fun q hq => by
        obtain rfl : c = q := by simpa using hq
        exact hbus c (List.mem_append_right _ (List.mem_singleton_self c)))
  have hreach : Reaches (chipNext ch.mem) p c := by
    obtain ⟨l, hl⟩ := hp
    have hlist : p :: l = ps ++ [c] := hl
    refine Reaches.of_isChain (hlist ▸ hchain) ?_
    simp only [hlist, List.getLast_append_singleton]
  have hown : (ch.mem c).isSome = true := (hright.own c (by rw [hstart]; exact hreach)).2
  rw [h.blank] at hown
  cases hown

end Chains

/-! ## The transfer -/

section Transfer
variable {env : DmaEnv w} {ch : Chan w} {desc : VmeDma} {toUser : Bool}

/-- The channel as `vme_dma_setup` gets it. -/
def acquired (ch : Chan w) (desc : VmeDma) : Chan w := { ch with busy := true, desc := desc }

theorem vmeDoDma_acquired (ha : Accepted desc) (hacq : env.acquire = .channel) :
    vmeDoDma env ch desc toUser = (vmeDmaSetup env (acquired ch desc) toUser).map fun r =>
      if r.1 ≠ 0 then (r.1, desc, vmeDmaChannelRelease r.2)
      else ((vmeDmaRun env r.2 toUser).1, { desc with status := env.dsta },
        vmeDmaChannelRelease (vmeDmaRun env r.2 toUser).2) := by
  obtain ⟨hlen, hdir, hsrc, hdst⟩ := ha
  have hdir' : ¬ (desc.dir ≠ vmeDmaFromDevice ∧ desc.dir ≠ vmeDmaToDevice) := by
    rintro ⟨h1, h2⟩
    exact hdir.elim h2 h1
  have haddr : ¬ (desc.src.addru ≠ 0 ∨ desc.dst.addru ≠ 0) := by simp [hsrc, hdst]
  have hacq' : ¬ env.acquire ≠ .channel := not_not.mpr hacq
  unfold vmeDoDma
  simp only [hlen, hdir', haddr, hacq', if_false, acquired]
  generalize vmeDmaSetup env _ toUser = result
  cases result with
  | none => rfl
  | some r =>
    obtain ⟨rc, ch1⟩ := r
    by_cases hrc : rc = 0
    · simp [hrc]
    · simp [hrc]

theorem acquired_no_pages (h : Pins env desc) (h0 : pagesOf env desc = 0) :
    vmeDmaSetup env (acquired ch desc) toUser =
      if PinComplete env desc toUser then none else some (0, emptied env (acquired ch desc) toUser) :=
  vmeDmaSetup_no_pages h h0

theorem vmeDmaRun_launches : (vmeDmaRun env ch toUser).2.launches =
    ch.launches ++ [⟨ch.dnlal, ch.mem, ch.hwDescList⟩] := by
  unfold vmeDmaRun
  cases env.interrupted <;> simp

theorem Acquire.rc_neg {a : Acquire} (h : a ≠ .channel) : a.rc < 0 := by
  cases a with
  | channel => exact absurd rfl h
  | disabled => decide
  | interrupted => decide
  | deadlock => decide

theorem vmeDoDma_unavailable (ha : Accepted desc) (hacq : env.acquire ≠ .channel) :
    vmeDoDma env ch desc toUser = some (env.acquire.rc, desc, ch) := by
  obtain ⟨hlen, hdir, hsrc, hdst⟩ := ha
  have hdir' : ¬ (desc.dir ≠ vmeDmaFromDevice ∧ desc.dir ≠ vmeDmaToDevice) := by
    rintro ⟨h1, h2⟩
    exact hdir.elim h2 h1
  have haddr : ¬ (desc.src.addru ≠ 0 ∨ desc.dst.addru ≠ 0) := by simp [hsrc, hdst]
  unfold vmeDoDma
  simp only [hlen, hdir', haddr, if_false, if_pos hacq]

theorem startsRight_early (ha : Accepted desc) (h : ¬ Pins env desc) :
    StartsRight ch desc (vmeDoDma env ch desc toUser) := by
  by_cases hacq : env.acquire = .channel
  · obtain ⟨rc, ch', hset, hneg, hun⟩ : ∃ rc ch', vmeDmaSetup env (acquired ch desc) toUser = some (rc, ch') ∧
        rc < 0 ∧ Untouched (acquired ch desc) ch' := vmeDmaSetup_early h hacq
    have hrc : rc ≠ 0 := by omega
    refine ⟨rc, desc, vmeDmaChannelRelease ch', ?_, .inl ⟨hneg, hun.launches⟩⟩
    rw [vmeDoDma_acquired ha hacq, hset]
    simp [hrc]
  · exact ⟨env.acquire.rc, desc, ch, vmeDoDma_unavailable ha hacq, .inl ⟨Acquire.rc_neg hacq, rfl⟩⟩

theorem not_startsRight_no_pages (ha : Accepted desc) (h : Pins env desc) (h0 : pagesOf env desc = 0)
    (hempty : ch.hwDescList = []) : ¬ StartsRight ch desc (vmeDoDma env ch desc toUser) := by
  rintro ⟨rc, desc', ch', hrun, hout⟩
  rw [vmeDoDma_acquired ha h.1, acquired_no_pages h h0] at hrun
  by_cases hc : PinComplete env desc toUser
  · rw [if_pos hc] at hrun
    cases hrun
  · rw [if_neg hc] at hrun
    simp only [Option.map_some, ne_eq, not_true_eq_false, if_false, Option.some.injEq, Prod.mk.injEq] at hrun
    obtain ⟨-, -, rfl⟩ := hrun
    have hl : (vmeDmaChannelRelease (vmeDmaRun env (emptied env (acquired ch desc) toUser) toUser).2).launches =
        ch.launches ++ [⟨ch.dnlal, ch.mem, ch.hwDescList⟩] := vmeDmaRun_launches
    rw [hl] at hout
    obtain ⟨-, hsame⟩ | ⟨l, hsame, cells, ds, hright⟩ := hout
    · exact absurd hsame (by simp)
    · obtain rfl : _ = l := by simpa using hsame
      have hown := (hright.own _ Relation.ReflTransGen.refl).1
      rw [hempty] at hown
      cases hown

/-- A request with pages: the contract is a matter of `tsi148_dma_setup`. -/
theorem startsRight_pages (ha : Accepted desc) (hempty : ch.hwDescList = []) (h : Pins env desc)
    (h0 : pagesOf env desc ≠ 0) :
    StartsRight ch desc (vmeDoDma env ch desc toUser) ↔
      ∃ rc ch', tsi148DmaSetup (prepared env (acquired ch desc) toUser) env.pool = some (rc, ch') ∧
        (rc < 0 ∨ (rc = 0 ∧ RightStart desc ⟨ch'.dnlal, ch'.mem, ch'.hwDescList⟩)) := by
  have hpages : vmeDmaSetup env (acquired ch desc) toUser = _ := vmeDmaSetup_pages h h0
  rw [vmeDoDma_acquired ha h.1, hpages]
  cases hset : tsi148DmaSetup (prepared env (acquired ch desc) toUser) env.pool with
  | none => simp [StartsRight]
  | some r =>
    obtain ⟨rc, ch1⟩ := r
    have hdir : ValidDir (prepared env (acquired ch desc) toUser).desc := ha.2.1
    have hl : ch1.launches = (prepared env (acquired ch desc) toUser).launches :=
      tsi148DmaSetup_launches hdir hempty hset
    change ch1.launches = ch.launches at hl
    unfold StartsRight
    by_cases hrc : rc = 0
    · subst hrc
      have hrun : (vmeDmaChannelRelease (vmeDmaRun env ch1 toUser).2).launches =
          ch.launches ++ [⟨ch1.dnlal, ch1.mem, ch1.hwDescList⟩] := by
        rw [← hl]
        exact vmeDmaRun_launches
      simp only [Option.map_some, ne_eq, not_true_eq_false, if_false, Option.some.injEq, Prod.mk.injEq]
      constructor
      · rintro ⟨_, _, _, ⟨-, -, rfl⟩, ⟨-, hsame⟩ | ⟨l, hsame, hright⟩⟩
        · rw [hrun] at hsame
          exact absurd hsame (by simp)
        · rw [hrun] at hsame
          obtain rfl : _ = l := by simpa using hsame
          exact ⟨0, ch1, ⟨rfl, rfl⟩, .inr ⟨rfl, hright⟩⟩
      · rintro ⟨rc, ch', ⟨rfl, rfl⟩, hneg | ⟨-, hright⟩⟩
        · omega
        · exact ⟨_, _, _, ⟨rfl, rfl, rfl⟩, .inr ⟨_, hrun, hright⟩⟩
    · have hsame : (vmeDmaChannelRelease (kfreeSgl (sglUnmapUserPages ch1 toUser))).launches = ch.launches := by
        rw [← hl]
        exact unmap_launches ch1 toUser
      simp only [Option.map_some, ne_eq, hrc, not_false_eq_true, if_true, Option.some.injEq, Prod.mk.injEq]
      constructor
      · rintro ⟨_, _, _, ⟨rfl, -, rfl⟩, ⟨hneg, -⟩ | ⟨l, hl', -⟩⟩
        · exact ⟨rc, ch1, ⟨rfl, rfl⟩, .inl hneg⟩
        · rw [hsame] at hl'
          exact absurd hl'.symm (by simp)
      · rintro ⟨_, _, ⟨rfl, rfl⟩, hneg | ⟨h0, -⟩⟩
        · exact ⟨rc, desc, _, ⟨rfl, rfl, rfl⟩, .inl ⟨hneg, hsame⟩⟩
        · exact absurd h0 hrc

/-- The channel on which the chain of a request is built. -/
def chainChan (env : DmaEnv w) (ch : Chan w) (desc : VmeDma) (toUser : Bool) (dctl : U32) : Chan w :=
  controlled (prepared env (acquired ch desc) toUser) dctl

/-- The chain serves the request: the contract is kept, also when a descriptor is refused. -/
theorem chain_right (hw : 32 ≤ w) (hdir : ValidDir desc) (hempty : ch.hwDescList = []) (hpool : GoodPool env.pool)
    (hfit : LinkedFit desc (mappedOf env desc toUser)) (hserves : Serves desc (mappedOf env desc toUser))
    (dctl dsat ddat : U32) :
    ∃ rc ch', tsi148DmaSetupChain (chainChan env ch desc toUser dctl) dsat ddat env.pool = some (rc, ch') ∧
      (rc < 0 ∨ (rc = 0 ∧ RightStart desc ⟨ch'.dnlal, ch'.mem, ch'.hwDescList⟩)) := by
  obtain ⟨hne, hall, hsum⟩ := hserves
  unfold LinkedFit at hfit
  rw [hall] at hfit
  obtain ⟨hpos, hvme, -⟩ := (linkedEntries_eq_self _ _ _).mp hall
  have hdir' : ValidDir (chainChan env ch desc toUser dctl).desc := hdir
  rcases setupChain_cut hw hdir' hempty hpool (getVmeaddr_eq hdir) hne hpos hvme hfit with
    ⟨-, ch', p, l, blks, hset, hmap, hcl, hdnlal⟩ | ⟨-, ch', hset⟩
  · refine ⟨0, ch', hset, .inr ⟨rfl, (hcl.right_iff hw hdnlal).mpr ?_⟩⟩
    rw [hmap]
    unfold chainPieces
    rw [cutAll_total, List.map_map]
    exact hsum
  · exact ⟨-ENOMEM, ch', hset, .inl (by decide)⟩

/-- The chain does not serve the request: the contract is broken unless a descriptor is refused. -/
theorem chain_wrong (hw : 32 ≤ w) (hdir : ValidDir desc) (hempty : ch.hwDescList = []) (hpool : GoodPool env.pool)
    (hfit : LinkedFit desc (mappedOf env desc toUser)) (hserves : ¬ Serves desc (mappedOf env desc toUser))
    (dctl dsat ddat : U32) :
    (∃ rc ch', tsi148DmaSetupChain (chainChan env ch desc toUser dctl) dsat ddat env.pool = some (rc, ch') ∧
      (rc < 0 ∨ (rc = 0 ∧ RightStart desc ⟨ch'.dnlal, ch'.mem, ch'.hwDescList⟩))) ↔
    ¬ Supplies (askedDescs desc (mappedOf env desc toUser)) env.pool := by
  have hdir' : ValidDir (chainChan env ch desc toUser dctl).desc := hdir
  by_cases hrun : mappedOf env desc toUser ≠ [] ∧
      linkedEntries desc.inc (vmeAddr desc).toNat (mappedOf env desc toUser) = mappedOf env desc toUser
  · -- every entry is linked, but they do not add up to the length
    obtain ⟨hne, hall⟩ := hrun
    have hasked : askedDescs desc (mappedOf env desc toUser) =
        (chainPieces desc (vmeAddr desc) (mappedOf env desc toUser)).length := by
      unfold askedDescs linkedPieces
      rw [if_pos ⟨hne, hall⟩, hall]
    have hsum : ((mappedOf env desc toUser).map fun seg => seg.len.toNat).sum ≠ desc.length.toNat :=
      fun h => hserves ⟨hne, hall, h⟩
    unfold LinkedFit at hfit
    rw [hall] at hfit
    obtain ⟨hpos, hvme, -⟩ := (linkedEntries_eq_self _ _ _).mp hall
    rw [hasked]
    rcases setupChain_cut hw hdir' hempty hpool (getVmeaddr_eq hdir) hne hpos hvme hfit with
      ⟨hs, ch', p, l, blks, hset, hmap, hcl, hdnlal⟩ | ⟨hs, ch', hset⟩
    · refine ⟨?_, fun h => absurd hs h⟩
      rintro ⟨rc, ch'', hset', hout⟩
      rw [hset] at hset'
      obtain ⟨rfl, rfl⟩ : 0 = rc ∧ ch' = ch'' := by simpa using hset'
      obtain hneg | ⟨-, hright⟩ := hout
      · omega
      · have htotal := (hcl.right_iff hw hdnlal).mp hright
        rw [hmap] at htotal
        unfold chainPieces at htotal
        rw [cutAll_total, List.map_map] at htotal
        exact absurd htotal hsum
    · exact ⟨fun _ => hs, fun _ => ⟨-ENOMEM, ch', hset, .inl (by decide)⟩⟩
  · have hasked : askedDescs desc (mappedOf env desc toUser) =
        (linkedPieces desc (mappedOf env desc toUser)).length + 1 := if_neg hrun
    have hstuck : mappedOf env desc toUser = [] ∨
        linkedEntries desc.inc (vmeAddr desc).toNat (mappedOf env desc toUser) ≠ mappedOf env desc toUser := by
      by_cases hne : mappedOf env desc toUser = []
      · exact .inl hne
      · exact .inr fun h => hrun ⟨hne, h⟩
    rw [hasked]
    rcases setupChain_stuck hw hdir' hempty hpool (getVmeaddr_eq hdir) hstuck hfit rfl with
      ⟨hs, hnone | ⟨ch', p, ps, bs, c, pool', hset, hdnlal, hp, ho⟩⟩ | ⟨hs, ch', hset⟩
    · refine ⟨?_, fun h => absurd hs h⟩
      rintro ⟨rc, ch'', hset', -⟩
      rw [hnone] at hset'
      cases hset'
    · refine ⟨?_, fun h => absurd hs h⟩
      rintro ⟨rc, ch'', hset', hout⟩
      rw [hset] at hset'
      obtain ⟨rfl, rfl⟩ : 0 = rc ∧ ch' = ch'' := by simpa using hset'
      obtain hneg | ⟨-, hright⟩ := hout
      · omega
      · exact absurd hright (ho.not_right hw hdnlal hp)
    · exact ⟨fun _ => hs, fun _ => ⟨-ENOMEM, ch', hset, .inl (by decide)⟩⟩

theorem Supplies.mono {k m : ℕ} {pool : List (PoolAnswer w)} (hk : k ≤ m) (h : Supplies m pool) :
    Supplies k pool := by
  obtain ⟨d, rfl⟩ := Nat.exists_eq_add_of_le hk
  exact ((supplies_add k d pool).mp h).1

theorem inUseAtTop_le_asked (segs : List (DmaSeg w)) :
    inUseAtTop (tsi148GetBshift desc) desc.inc (vmeAddr desc).toNat
      (linkedEntries desc.inc (vmeAddr desc).toNat segs) ≤ askedDescs desc segs := by
  have hle : _ ≤ (linkedPieces desc segs).length := inUseAtTop_le (tsi148GetBshift desc) desc.inc
    (vmeAddr desc).toNat (linkedEntries desc.inc (vmeAddr desc).toNat segs)
  unfold askedDescs
  split
  · exact hle
  · exact Nat.le_succ_of_le hle

/-- A request whose attributes are accepted: the chain is built and right, or a descriptor is refused. -/
theorem chain_iff (hw : 32 ≤ w) (hdir : ValidDir desc) (hempty : ch.hwDescList = []) (hpool : GoodPool env.pool)
    (htop : StaysBelowTop desc (mappedOf env desc toUser) env.pool) (dctl dsat ddat : U32) :
    (∃ rc ch', tsi148DmaSetupChain (chainChan env ch desc toUser dctl) dsat ddat env.pool = some (rc, ch') ∧
      (rc < 0 ∨ (rc = 0 ∧ RightStart desc ⟨ch'.dnlal, ch'.mem, ch'.hwDescList⟩))) ↔
    (Serves desc (mappedOf env desc toUser) ∨
      ¬ Supplies (askedDescs desc (mappedOf env desc toUser)) env.pool) := by
  by_cases hfit : LinkedFit desc (mappedOf env desc toUser)
  · by_cases hserves : Serves desc (mappedOf env desc toUser)
    · exact ⟨fun _ => .inl hserves, fun _ => chain_right hw hdir hempty hpool hfit hserves dctl dsat ddat⟩
    · rw [chain_wrong hw hdir hempty hpool hfit hserves dctl dsat ddat]
      exact ⟨.inr, fun h => h.resolve_left hserves⟩
  · have hrefused := htop.resolve_left hfit
    have hdir' : ValidDir (chainChan env ch desc toUser dctl).desc := hdir
    obtain ⟨ch', hset⟩ : ∃ ch', tsi148DmaSetupChain (chainChan env ch desc toUser dctl) dsat ddat env.pool =
        some (-ENOMEM, ch') := setupChain_refuses hw hdir' hempty hpool (getVmeaddr_eq hdir) hfit hrefused
    refine ⟨fun _ => .inr fun h => hrefused (h.mono (inUseAtTop_le_asked _)), fun _ => ?_⟩
    exact ⟨-ENOMEM, ch', hset, .inl (by decide)⟩

/-- The contract is kept exactly when the request does not get as far as pinning, or it has pages and,
if its attributes are accepted, its mapped entries serve it or the pool refuses one of the
descriptors they ask for. A request that gets as far as the link loop must not come there to a block
that reaches the top of the bus address type. -/
theorem vmeDoDma_startsRight_iff (hw : 32 ≤ w) (ha : Accepted desc) (hempty : ch.hwDescList = [])
    (hpool : GoodPool env.pool)
    (htop : Pins env desc → pagesOf env desc ≠ 0 → AttrsOk desc →
      StaysBelowTop desc (mappedOf env desc toUser) env.pool) :
    StartsRight ch desc (vmeDoDma env ch desc toUser) ↔
      (Pins env desc → pagesOf env desc ≠ 0 ∧ (AttrsOk desc →
        Serves desc (mappedOf env desc toUser) ∨
          ¬ Supplies (askedDescs desc (mappedOf env desc toUser)) env.pool)) := by
  by_cases hpins : Pins env desc
  · by_cases h0 : pagesOf env desc = 0
    · exact ⟨fun h => absurd h (not_startsRight_no_pages ha hpins h0 hempty), fun h => absurd h0 (h hpins).1⟩
    · rw [startsRight_pages ha hempty hpins h0]
      by_cases hattr : AttrsOk desc
      · have hattr' : AttrsOk (prepared env (acquired ch desc) toUser).desc := hattr
        obtain ⟨dsat, ddat, dctl, hset⟩ := tsi148DmaSetup_accepted hattr'
        have hchain : tsi148DmaSetup (prepared env (acquired ch desc) toUser) env.pool =
          tsi148DmaSetupChain (chainChan env ch desc toUser dctl) dsat ddat env.pool := hset env.pool
        rw [hchain, chain_iff hw ha.2.1 hempty hpool (htop hpins h0 hattr) dctl dsat ddat]
        exact ⟨fun h _ => ⟨h0, fun _ => h⟩, fun h => (h hpins).2 hattr⟩
      · have hset : tsi148DmaSetup (prepared env (acquired ch desc) toUser) env.pool = some (-EINVAL, _) :=
          tsi148DmaSetup_rejected hattr
        exact ⟨fun _ _ => ⟨h0, fun h => absurd h hattr⟩, fun _ => ⟨-EINVAL, _, hset, .inl (by decide)⟩⟩
  · exact ⟨fun _ h => absurd h hpins, fun _ => startsRight_early ha hpins⟩

end Transfer

/-! ## Pinned pages cover the request -/

def sglBytes (l : List SgEntry) : ℕ := (l.map fun e => e.length.toNat).sum

theorem sglRest_bytes {longBits : ℕ} (hl : 32 ≤ longBits) (pages : List ℕ) (length : BitVec longBits)
    (hlo : pageSize * (pages.length - 1) < length.toNat) (hhi : length.toNat ≤ pageSize * pages.length)
    (hlen : length.toNat < 2^32) : sglBytes (sglRest longBits pages length) = length.toNat := by
  have hlong : (2 : ℕ)^32 ≤ 2^longBits := Nat.pow_le_pow_right (by omega) hl
  have hpage : (BitVec.ofNat longBits pageSize).toNat = pageSize := by
    rw [BitVec.toNat_ofNat]
    exact Nat.mod_eq_of_lt (by unfold pageSize; omega)
  unfold pageSize at hlo hhi hpage
  induction pages generalizing length with
  | nil =>
    simp only [List.length_nil] at hhi
    omega
  | cons page pages ih =>
    simp only [List.length_cons, Nat.add_sub_cancel] at hlo hhi
    simp only [sglRest, sglBytes, List.map_cons, List.sum_cons]
    change _ + sglBytes (sglRest longBits pages _) = _
    by_cases hlast : pages = []
    · subst hlast
      simp only [List.length_nil] at hlo hhi
      have hrest : sglBytes (sglRest longBits [] (length - BitVec.ofNat longBits pageSize)) = 0 := rfl
      rw [hrest, Nat.add_zero]
      by_cases hlt : length < BitVec.ofNat longBits pageSize
      · rw [if_pos hlt, BitVec.toNat_setWidth, Nat.mod_eq_of_lt hlen]
      · rw [if_neg hlt]
        rw [BitVec.lt_def] at hlt
        unfold pageSize at hlt ⊢
        rw [hpage] at hlt
        change 4096 = _
        omega
    · have hpos := List.length_pos_of_ne_nil hlast
      have hge : ¬ length < BitVec.ofNat longBits pageSize := by
        rw [BitVec.lt_def]
        unfold pageSize
        rw [hpage]
        omega
      have hsub : (length - BitVec.ofNat longBits pageSize).toNat = length.toNat - 4096 := by
        unfold pageSize at hge ⊢
        rw [BitVec.toNat_sub_of_le (by rw [BitVec.le_def]; rw [BitVec.lt_def] at hge; omega), hpage]
      rw [if_neg hge]
      clear hge
      generalize length - BitVec.ofNat longBits pageSize = rest at hsub ⊢
      rw [ih rest (by omega) (by omega) (by omega), hsub]
      change 4096 + _ = _
      omega

theorem sglPopulate_bytes {longBits : ℕ} (hl : 32 ≤ longBits) {pages : List ℕ} {uaddr length : U32}
    (hov : ¬ uaddr + length < uaddr) (hpages : pages.length = nrPages longBits uaddr length)
    (h0 : nrPages longBits uaddr length ≠ 0) : sglBytes (sglPopulate longBits pages uaddr length) = length.toNat := by
  have hlong : (2 : ℕ)^32 ≤ 2^longBits := Nat.pow_le_pow_right (by omega) hl
  have hoff : (offsetInPage uaddr).toNat = uaddr.toNat % 4096 := toNat_and_low (k := 12) uaddr _ rfl
  have hmod := Nat.mod_lt uaddr.toNat (by omega : 0 < 4096)
  have hle := Nat.mod_le uaddr.toNat 4096
  have hsum : uaddr.toNat + length.toNat < 2^32 := by
    rw [BitVec.lt_def, BitVec.toNat_add] at hov
    have := uaddr.isLt
    have := length.isLt
    by_contra hge
    rw [Nat.mod_eq_sub_mod (by omega), Nat.mod_eq_of_lt (by omega)] at hov
    omega
  -- the sum behind the page count does not wrap, or there would be no pages
  have hnr : nrPages longBits uaddr length = (uaddr.toNat % 4096 + length.toNat + 4095) / 4096 := by
    unfold nrPages pageSize at h0 ⊢
    rw [hoff] at h0 ⊢
    by_cases hwrap : uaddr.toNat % 4096 + length.toNat + 4095 < 2^longBits
    · rw [Nat.mod_eq_of_lt hwrap]
    · exfalso
      apply h0
      rw [Nat.mod_eq_sub_mod (by omega), Nat.mod_eq_of_lt (by omega)]
      omega
  rw [hnr] at hpages h0
  match pages, hpages with
  | [], hpages => exact absurd hpages.symm h0
  | [page], _ => simp [sglPopulate, sglBytes]
  | page :: page' :: rest, hpages =>
    have hlen : (BitVec.ofNat 32 pageSize - offsetInPage uaddr).toNat = 4096 - uaddr.toNat % 4096 := by
      have hpg : (BitVec.ofNat 32 pageSize).toNat = 4096 := rfl
      rw [BitVec.toNat_sub_of_le (by rw [BitVec.le_def, hpg, hoff]; omega), hpg, hoff]
    simp only [List.length_cons] at hpages
    have hset : ∀ x : U32, (x.setWidth longBits).toNat = x.toNat := toNat_setWidth_word hl
    have hrem : (length.setWidth longBits - (BitVec.ofNat 32 pageSize - offsetInPage uaddr).setWidth longBits).toNat =
        length.toNat - (4096 - uaddr.toNat % 4096) := by
      rw [BitVec.toNat_sub_of_le (by rw [BitVec.le_def, hset, hset, hlen]; omega), hset, hset, hlen]
    simp only [sglPopulate, sglBytes, List.map_cons, List.sum_cons]
    change _ + sglBytes (sglRest longBits (page' :: rest) _) = _
    rw [sglRest_bytes hl, hrem, hlen]
    · omega
    · rw [hrem]
      unfold pageSize
      simp only [List.length_cons]
      omega
    · rw [hrem]
      unfold pageSize
      simp only [List.length_cons]
      omega
    · rw [hrem]
      omega

/-- When all pages were pinned and `pci_map_sg` maps all bytes or nothing, the condition is that it
maps something and that no entry is empty or reaches the top of an address type. -/
theorem serves_iff_of_pinned {env : DmaEnv w} {desc : VmeDma} {toUser : Bool} (hl : 32 ≤ env.longBits)
    (hpins : Pins env desc) (h0 : pagesOf env desc ≠ 0) (hpin : PinComplete env desc toUser)
    (hmap : mappedOf env desc toUser ≠ [] →
      ((mappedOf env desc toUser).map fun seg => seg.len.toNat).sum = sglBytes (sglOf env desc toUser)) :
    Serves desc (mappedOf env desc toUser) ↔ mappedOf env desc toUser ≠ [] ∧
      linkedEntries desc.inc (vmeAddr desc).toNat (mappedOf env desc toUser) = mappedOf env desc toUser := by
  refine ⟨fun h => ⟨h.1, h.2.1⟩, fun h => ⟨h.1, h.2, ?_⟩⟩
  rw [hmap h.1, sglOf, if_pos hpin]
  exact sglPopulate_bytes hl hpins.2.1 (pin_length hpin) h0

/-! ## Three requests -/

/-- A kernel in which every step before the mapping succeeds and page `n` lies at `4096 * n`. -/
def willingEnv (map : List SgEntry → List (DmaSeg 32)) : DmaEnv 32 :=
  { longBits := 32, acquire := .channel, sglAlloc := true, sglStale := fun _ => ⟨0, 0, 0⟩, pagesAlloc := true
    getUserPages := .pinned [2, 3], virtAddrValid := true, virtToPage := fun a => a / pageSize, pciMapSg := map
    pool := [.ok 0x1000, .ok 0x1040], interrupted := false, dsta := 0 }

/-- A mapping without an IOMMU. -/
def directMap (l : List SgEntry) : List (DmaSeg 32) :=
  l.map fun e => ⟨BitVec.ofNat 32 (e.page * pageSize) + e.offset, e.length⟩

def idleChan : Chan 32 :=
  { busy := false, desc := writeRequest 0 0 0, chained := false, sgl := [], sgPages := 0, sgMapped := []
    hwDescList := [], mem := fun _ => none, dctl := 0, dnlau := 0, dnlal := 0, writes := [], ledger := []
    launches := [] }

/-- The whole of a request mapped 256 bytes below the top of the bus addresses. -/
def topMap (l : List SgEntry) : List (DmaSeg 32) := l.map fun e => ⟨0xFFFFFF00, e.length⟩

/-- Two blocks in two descriptors; and a block that would reach the top of the bus addresses, for which
the pool has no descriptor. -/
theorem vmeDoDma_startsRight_two_blocks :
    StartsRight idleChan (writeRequest vmeA32UserBlt 0x1F80 0x100)
      (vmeDoDma (willingEnv directMap) idleChan (writeRequest vmeA32UserBlt 0x1F80 0x100) true) ∧
    StartsRight idleChan (writeRequest vmeA32UserMblt 0x2000 0x80)
      (vmeDoDma { willingEnv topMap with pool := [.noDesc] } idleChan
        (writeRequest vmeA32UserMblt 0x2000 0x80) true) := by
  constructor
  · refine (vmeDoDma_startsRight_iff (Nat.le_refl 32) (by decide) rfl goodPool_two ?_).mpr ?_
    · exact fun _ _ _ => .inl (by decide +kernel)
    · exact fun _ => ⟨by decide +kernel, fun _ => .inl (by decide +kernel)⟩
  · have hpool : GoodPool [PoolAnswer.noDesc (w := 32)] := ⟨List.nodup_nil, fun p hp => by cases hp⟩
    have hnone : ∀ k, 0 < k → ¬ Supplies k [PoolAnswer.noDesc (w := 32)] := by
      rintro (_ | k) hk
      · exact absurd hk (lt_irrefl 0)
      · exact fun h => h
    refine (vmeDoDma_startsRight_iff (Nat.le_refl 32) (by decide) rfl hpool ?_).mpr ?_
    · intro _ _ _
      have hfit : ¬ LinkedFit (writeRequest vmeA32UserMblt 0x2000 0x80) [DmaSeg.mk (0xFFFFFF00 : BitVec 32) 0x80] := by
        decide +kernel
      exact .inr (hnone _ (inUseAtTop_pos (linkedEntries_runs _ _ _) hfit))
    · exact fun _ => ⟨by decide +kernel, fun _ => .inl (by decide +kernel)⟩

theorem not_startsRight_blank {ch : Chan w} {desc : VmeDma} {r : Option (Int × VmeDma × Chan w)} (rc : Int)
    (p : BitVec w) (hch : ch.launches = [])
    (hr : (r.map fun x => (x.1, x.2.2.launches.map fun l => (l.dnlal.setWidth w, l.mem p))) = some (rc, [(p, none)])) :
    ¬ StartsRight ch desc r := by
  rintro ⟨rc', desc', ch', rfl, hout⟩
  simp only [Option.map_some, Option.some.injEq, Prod.mk.injEq] at hr
  obtain ⟨-, hl⟩ := hr
  rw [hch] at hout
  obtain ⟨-, hsame⟩ | ⟨l, hsame, cells, ds, hright⟩ := hout
  · rw [hsame] at hl
    cases hl
  · rw [hsame] at hl
    obtain ⟨hstart, hblank⟩ : l.dnlal.setWidth w = p ∧ l.mem p = none := by simpa using hl
    have hown := (hright.own _ Relation.ReflTransGen.refl).2
    rw [hstart, hblank] at hown
    cases hown

/-- A failed mapping, and a transfer that ends at the top of the VME address space: the chip is started
on a descriptor that was never filled. -/
theorem vmeDoDma_starts_on_blank :
    ¬ StartsRight idleChan (writeRequest vmeA32UserBlt 0x1F80 0x80)
      (vmeDoDma (willingEnv fun _ => []) idleChan (writeRequest vmeA32UserBlt 0x1F80 0x80) true) ∧
    ¬ StartsRight idleChan (writeRequest vmeA32UserBlt 0xFFFFFF80 0x80)
      (vmeDoDma (willingEnv directMap) idleChan (writeRequest vmeA32UserBlt 0xFFFFFF80 0x80) true) := by
  constructor
  · exact not_startsRight_blank 0 0x1000 rfl (by decide +kernel)
  · exact not_startsRight_blank 0 0x1000 rfl (by decide +kernel)

end HtDrivers.Vmebridge
