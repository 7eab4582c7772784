import HtDrivers.Vmebridge.Tsi148Dma

/-! # What building and freeing a chain leaves alone

Building a chain touches only the descriptor list, the descriptor memory and the ledger, and the
ledger stays in step with the list. Freeing the chain pays back exactly what the list holds.
-/
namespace HtDrivers.Vmebridge
open HtDrivers.Lib HtDrivers.Lib.Ledger
set_option autoImplicit false

variable {w : ℕ}

/-- The resources behind the descriptors of a list. -/
def descRes (l : List (BitVec w)) : List (Res w) := l.flatMap fun p => [.hwDesc p, .hwDescEntry p]

/-- `ch'` is `ch` with more descriptors on its list. -/
structure Extends (ch ch' : Chan w) : Prop where
  frame : ch' = { ch with hwDescList := ch'.hwDescList, mem := ch'.mem, ledger := ch'.ledger }
  list : ch.hwDescList <+: ch'.hwDescList
  ledger : ∀ rs : Multiset (Res w), Holds ch.ledger (rs + (descRes ch.hwDescList : Multiset (Res w))) →
    Holds ch'.ledger (rs + (descRes ch'.hwDescList : Multiset (Res w)))

section Extends
variable {ch ch' ch'' : Chan w}

theorem Extends.refl (ch : Chan w) : Extends ch ch := ⟨rfl, List.prefix_refl _, fun _ h => h⟩

theorem Extends.trans (h : Extends ch ch') (h' : Extends ch' ch'') : Extends ch ch'' where
  frame := by
    refine h'.frame.trans ?_
    rw [h.frame]
  list := h.list.trans h'.list
  ledger := fun rs hr => h'.ledger rs (h.ledger rs hr)

theorem Extends.of_mem (ch : Chan w) (mem : BitVec w → Option TsiDmaDesc) : Extends ch { ch with mem := mem } :=
  ⟨rfl, List.prefix_refl _, fun _ h => h⟩

theorem hwdescInit_extends (ch : Chan w) (answer : PoolAnswer w) : Extends ch (hwdescInit ch answer).2 := by
  cases answer with
  | noDesc => exact .refl ch
  | noEntry p =>
    refine ⟨rfl, List.prefix_refl _, fun rs h => ?_⟩
    change Holds (ch.ledger ++ [.acquire (.hwDesc p), .release (.hwDesc p)]) _
    rw [List.append_cons]
    exact h.acquire.release
  | ok p =>
    refine ⟨rfl, List.prefix_append _ _, fun rs h => ?_⟩
    have hlog := h.acquires [.hwDesc p, .hwDescEntry p]
    rw [add_assoc, Multiset.coe_add] at hlog
    have hres : descRes (ch.hwDescList ++ [p]) = descRes ch.hwDescList ++ [.hwDesc p, .hwDescEntry p] := by
      unfold descRes
      rw [List.flatMap_append]
      rfl
    change Holds _ (rs + ((descRes (ch.hwDescList ++ [p]) : List (Res w)) : Multiset (Res w)))
    rw [hres]
    exact hlog

end Extends

/-! ## A rule for the two loops -/

/-- `P` survives every pass of the link loop. -/
structure KeptByPass (a : LinkArgs w) (P : Chan w → Prop) : Prop where
  fill : ∀ (s : LinkVars w) (c : BitVec w), s.dma < a.dmaEnd → P s.ch → P (linkFill a s c).ch
  refused : ∀ (ch : Chan w) (p : BitVec w), P ch → P (hwdescInit ch (.noEntry p)).2
  link : ∀ (s : LinkVars w) (c p : BitVec w), s.dma < a.dmaEnd → P s.ch →
    P (linkTo (hwdescInit (linkFill a s c).ch (.ok p)).2 c p)

section Loops
variable {P : Chan w → Prop} {a : LinkArgs w} {s t : LinkVars w} {pool rest : List (PoolAnswer w)} {rc : Int}
  {ch ch' : Chan w} {np i : Int} {bshift : ℕ} {dsat ddat : U32}

theorem linkLoop_rule (hP : KeptByPass a P) (h : linkLoop a pool s = some (rc, t, rest)) (hs : P s.ch) :
    P t.ch := by
  induction pool generalizing s with
  | nil =>
    rw [linkLoop.eq_def] at h
    split at h
    · rename_i hg
      cases hc : s.curr with
      | none => simp [hc] at h
      | some c =>
        simp only [hc] at h
        split at h
        · obtain ⟨-, rfl, -⟩ : _ ∧ _ = t ∧ _ := by simpa using h
          exact hP.fill s c hg.2 hs
        · obtain ⟨-, rfl, -⟩ : _ ∧ _ = t ∧ _ := by simpa using h
          exact hP.fill s c hg.2 hs
    · obtain ⟨-, rfl, -⟩ : _ ∧ s = t ∧ _ := by simpa using h
      exact hs
  | cons answer pool ih =>
    rw [linkLoop.eq_def] at h
    split at h
    · rename_i hg
      cases hc : s.curr with
      | none => simp [hc] at h
      | some c =>
        simp only [hc] at h
        split at h
        · cases answer with
          | noDesc =>
            obtain ⟨-, rfl, -⟩ : _ ∧ _ = t ∧ _ := by simpa [hwdescInit] using h
            exact hP.fill s c hg.2 hs
          | noEntry p =>
            obtain ⟨-, rfl, -⟩ : _ ∧ _ = t ∧ _ := by simpa [hwdescInit] using h
            exact hP.refused _ p (hP.fill s c hg.2 hs)
          | ok p => exact ih h (hP.link s c p hg.2 hs)
        · obtain ⟨-, rfl, -⟩ : _ ∧ _ = t ∧ _ := by simpa using h
          exact hP.fill s c hg.2 hs
    · obtain ⟨-, rfl, -⟩ : _ ∧ s = t ∧ _ := by simpa using h
      exact hs

theorem linkAdd_rule (hP : ∀ a : LinkArgs w, a.bshift = bshift → a.dsat = dsat → a.ddat = ddat → KeptByPass a P)
    {virt virt' : Option (BitVec w)} {v : U32} {seg : DmaSeg w}
    (h : tsi148DmaLinkAdd ch virt v seg np i bshift dsat ddat pool = some (rc, ch', virt', rest)) (hch : P ch) :
    P ch' := by
  cases virt with
  | none => cases h
  | some c =>
    obtain ⟨⟨rc', t, rest'⟩, hloop, he⟩ := Option.map_eq_some_iff.mp h
    obtain ⟨-, rfl, -⟩ : _ ∧ t.ch = ch' ∧ _ := by simpa only [Prod.mk.injEq] using he
    exact linkLoop_rule (hP _ rfl rfl rfl) hloop hch

theorem chainLoop_rule (hP : ∀ a : LinkArgs w, a.bshift = bshift → a.dsat = dsat → a.ddat = ddat → KeptByPass a P)
    {segs : List (DmaSeg w)} {v : U32} {virt : Option (BitVec w)}
    (h : chainLoop np bshift dsat ddat segs i v virt ch pool = some (rc, ch', rest)) (hch : P ch) : P ch' := by
  induction segs generalizing i v virt ch pool with
  | nil =>
    obtain ⟨-, rfl, -⟩ : _ ∧ ch = ch' ∧ _ := by simpa [chainLoop] using h
    exact hch
  | cons seg segs ih =>
    rw [chainLoop] at h
    cases hadd : tsi148DmaLinkAdd ch virt v seg np i bshift dsat ddat pool with
    | none => simp [hadd] at h
    | some r =>
      obtain ⟨rc', ch1, virt', pool'⟩ := r
      have hch1 : P ch1 := linkAdd_rule hP hadd hch
      simp only [hadd] at h
      split at h
      · simp only [Option.some.injEq, Prod.mk.injEq] at h
        obtain ⟨-, rfl, -⟩ := h
        exact hch1
      · exact ih h hch1

theorem linkFill_extends (c : BitVec w) : Extends s.ch (linkFill a s c).ch := .of_mem s.ch _

theorem linkTo_extends (c p : BitVec w) : Extends ch (linkTo ch c p) := .of_mem ch _

theorem extends_kept (a : LinkArgs w) (ch : Chan w) : KeptByPass a (Extends ch) where
  fill := fun _ c _ h => h.trans (linkFill_extends c)
  refused := fun _ _ h => h.trans (hwdescInit_extends _ _)
  link := fun _ c p _ h => ((h.trans (linkFill_extends c)).trans (hwdescInit_extends _ _)).trans (linkTo_extends c p)

theorem chainLoop_extends {segs : List (DmaSeg w)} {v : U32} {virt : Option (BitVec w)}
    (h : chainLoop np bshift dsat ddat segs i v virt ch pool = some (rc, ch', rest)) : Extends ch ch' :=
  chainLoop_rule (fun a _ _ _ => extends_kept a ch) h (.refl ch)

end Loops

/-! ## Freeing -/

theorem freeChain_ledger {ch : Chan w} {rs : Multiset (Res w)}
    (h : Holds ch.ledger (rs + (descRes ch.hwDescList : Multiset (Res w)))) :
    Holds (tsi148DmaFreeChain ch).ledger rs := by
  have hlog : (tsi148DmaFreeChain ch).ledger = ch.ledger ++ (descRes ch.hwDescList).map .release := by
    unfold descRes
    rw [List.map_flatMap]
    rfl
  rw [hlog]
  exact h.releases _

/-! ## `tsi148_dma_setup_chain` -/

/-- The channel once the head of the chain is in the next-link registers. -/
def armed (ch : Chan w) (p : BitVec w) : Chan w := (ch.iowrite .dnlau 0).iowrite .dnlal (linkWord p)

section Setup
variable {ch ch' : Chan w} {dsat ddat : U32} {v : U32} {pool : List (PoolAnswer w)} {p : BitVec w} {rc : Int}

theorem setupChain_ok (hv : getVmeaddr ch.desc = some v) :
    tsi148DmaSetupChain ch dsat ddat (.ok p :: pool) =
      (chainLoop ch.sgMapped.length (tsi148GetBshift ch.desc) dsat ddat ch.sgMapped 0 v (some p)
        (hwdescInit ch (.ok p)).2 pool).map fun r =>
          if r.1 ≠ 0 then (r.1, tsi148DmaFreeChain r.2.1) else (0, armed r.2.1 p) := by
  simp only [tsi148DmaSetupChain, hwdescInit, hv]
  generalize chainLoop ch.sgMapped.length (tsi148GetBshift ch.desc) dsat ddat ch.sgMapped 0 v (some p) _ pool = o
  cases o with
  | none => rfl
  | some r =>
    obtain ⟨rc, ch1, rest⟩ := r
    by_cases h : rc = 0 <;> simp [h, armed]

theorem setupChain_not_ok (hp : ∀ p pool', pool ≠ .ok p :: pool') :
    ∃ ch', tsi148DmaSetupChain ch dsat ddat pool = some (-ENOMEM, ch') := by
  cases pool with
  | nil => exact ⟨_, rfl⟩
  | cons answer pool =>
    cases answer with
    | noDesc => exact ⟨_, rfl⟩
    | noEntry p => exact ⟨_, rfl⟩
    | ok p => exact absurd rfl (hp p pool)

theorem getVmeaddr_valid {desc : VmeDma} (hdir : ValidDir desc) : ∃ v, getVmeaddr desc = some v := by
  unfold getVmeaddr
  by_cases h : desc.dir = vmeDmaToDevice
  · exact ⟨_, if_pos h⟩
  · exact ⟨_, by rw [if_neg h, if_pos (hdir.resolve_left h)]⟩

theorem setupChain_cases (hv : getVmeaddr ch.desc = some v)
    (h : tsi148DmaSetupChain ch dsat ddat pool = some (rc, ch')) :
    (rc = -ENOMEM ∧ (ch' = ch ∨ ∃ p, ch' = (hwdescInit ch (.noEntry p)).2)) ∨
    ∃ p pool' ch1 rest, pool = .ok p :: pool' ∧
      chainLoop ch.sgMapped.length (tsi148GetBshift ch.desc) dsat ddat ch.sgMapped 0 v (some p)
        (hwdescInit ch (.ok p)).2 pool' = some (rc, ch1, rest) ∧
      ((rc ≠ 0 ∧ ch' = tsi148DmaFreeChain ch1) ∨ (rc = 0 ∧ ch' = armed ch1 p)) := by
  cases pool with
  | nil =>
    obtain ⟨rfl, rfl⟩ : -ENOMEM = rc ∧ ch = ch' := by simpa [tsi148DmaSetupChain] using h
    exact .inl ⟨rfl, .inl rfl⟩
  | cons answer pool =>
    cases answer with
    | noDesc =>
      obtain ⟨rfl, rfl⟩ : -ENOMEM = rc ∧ ch = ch' := by simpa [tsi148DmaSetupChain, hwdescInit] using h
      exact .inl ⟨rfl, .inl rfl⟩
    | noEntry p =>
      obtain ⟨rfl, rfl⟩ : -ENOMEM = rc ∧ (hwdescInit ch (.noEntry p)).2 = ch' := by
        simpa [tsi148DmaSetupChain, hwdescInit] using h
      exact .inl ⟨rfl, .inr ⟨p, rfl⟩⟩
    | ok p =>
      rw [setupChain_ok hv] at h
      obtain ⟨⟨rc', ch1, rest⟩, hloop, he⟩ := Option.map_eq_some_iff.mp h
      by_cases hrc : rc' = 0
      · simp only [hrc, ne_eq, not_true_eq_false, if_false, Prod.mk.injEq] at he
        obtain ⟨rfl, rfl⟩ := he
        exact .inr ⟨p, pool, ch1, rest, rfl, hrc ▸ hloop, .inr ⟨rfl, rfl⟩⟩
      · simp only [hrc, ne_eq, not_false_eq_true, if_true, Prod.mk.injEq] at he
        obtain ⟨rfl, rfl⟩ := he
        exact .inr ⟨p, pool, ch1, rest, rfl, hloop, .inl ⟨hrc, rfl⟩⟩

/-- What the call keeps, and the state of the ledger behind it. -/
structure SetupFrame (ch ch' : Chan w) (rc : Int) : Prop where
  launches : ch'.launches = ch.launches
  sgl : ch'.sgl = ch.sgl
  sgPages : ch'.sgPages = ch.sgPages
  chained : ch'.chained = ch.chained
  writes : ch.writes <+: ch'.writes
  failed : rc ≠ 0 → ch'.hwDescList = []
  ledger : ∀ rs : Multiset (Res w), Holds ch.ledger rs →
    Holds ch'.ledger (rs + (descRes ch'.hwDescList : Multiset (Res w)))

theorem setupChain_frame (hempty : ch.hwDescList = []) (hv : getVmeaddr ch.desc = some v)
    (h : tsi148DmaSetupChain ch dsat ddat pool = some (rc, ch')) : SetupFrame ch ch' rc := by
  have hnone : ∀ rs : Multiset (Res w), rs + (descRes ch.hwDescList : Multiset (Res w)) = rs := by
    intro rs
    rw [hempty]
    exact add_zero rs
  obtain ⟨-, rfl | ⟨p, rfl⟩⟩ | ⟨p, pool', ch1, rest, rfl, hloop, hout⟩ := setupChain_cases hv h
  · refine ⟨rfl, rfl, rfl, rfl, List.prefix_refl _, fun _ => hempty, fun rs hr => ?_⟩
    rw [hnone]
    exact hr
  · refine ⟨rfl, rfl, rfl, rfl, List.prefix_refl _, fun _ => hempty, fun rs hr => ?_⟩
    exact (hwdescInit_extends ch (.noEntry p)).ledger rs ((hnone rs).symm ▸ hr)
  · have hext := (hwdescInit_extends ch (.ok p)).trans (chainLoop_extends hloop)
    have hlaunches : ch1.launches = ch.launches := by rw [hext.frame]
    have hsgl : ch1.sgl = ch.sgl := by rw [hext.frame]
    have hpages : ch1.sgPages = ch.sgPages := by rw [hext.frame]
    have hchained : ch1.chained = ch.chained := by rw [hext.frame]
    have hwrites : ch1.writes = ch.writes := by rw [hext.frame]
    have hlaw : ∀ rs, Holds ch.ledger rs → Holds ch1.ledger (rs + (descRes ch1.hwDescList : Multiset (Res w))) :=
      fun rs hr => hext.ledger rs ((hnone rs).symm ▸ hr)
    obtain ⟨-, rfl⟩ | ⟨h0, rfl⟩ := hout
    · refine ⟨hlaunches, hsgl, hpages, hchained, hwrites ▸ List.prefix_refl _, fun _ => rfl, fun rs hr => ?_⟩
      change Holds _ (rs + 0)
      rw [add_zero]
      exact freeChain_ledger (hlaw rs hr)
    · refine ⟨hlaunches, hsgl, hpages, hchained, ?_, fun hne => absurd h0 hne, hlaw⟩
      change ch.writes <+: ch1.writes ++ [(.dnlau, 0)] ++ [(.dnlal, linkWord p)]
      rw [hwrites, List.append_assoc]
      exact List.prefix_append _ _

end Setup

end HtDrivers.Vmebridge
