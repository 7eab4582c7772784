import Mathlib.Tactic

/-! The events that `VmicWait` hands to the callback (`VmicLib.c`), and those that `VmicRegisterCallback` connects to.
-/
namespace HtDrivers.Xmem
set_option autoImplicit false

/-! ## Constants -/

def xmemDrvrIntrSources : ℕ := 17

def xmemDrvrIntrInt1 : BitVec 32 := 0x1
def xmemDrvrIntrInt2 : BitVec 32 := 0x2
def xmemDrvrIntrSegmentUpdate : BitVec 32 := 0x4
def xmemDrvrIntrRequestReset : BitVec 32 := 0x8
def xmemDrvrIntrRogueClobber : BitVec 32 := 0x40
def xmemDrvrIntrPendingInit : BitVec 32 := 0x80
def xmemDrvrIntrDataError : BitVec 32 := 0x100
def xmemDrvrIntrRxAlmostFull : BitVec 32 := 0x200
def xmemDrvrIntrRxOverflow : BitVec 32 := 0x400
def xmemDrvrIntrLostSync : BitVec 32 := 0x800
def xmemDrvrIntrParityError : BitVec 32 := 0x2000
def xmemDrvrIntrSoftwakeup : BitVec 32 := 0x10000

def xmemEventMaskTimeout : BitVec 32 := 0x1
def xmemEventMaskSendTable : BitVec 32 := 0x2
def xmemEventMaskUser : BitVec 32 := 0x4
def xmemEventMaskTableUpdate : BitVec 32 := 0x8
def xmemEventMaskInitialized : BitVec 32 := 0x10
def xmemEventMaskIo : BitVec 32 := 0x20
def xmemEventMaskKill : BitVec 32 := 0x40
def xmemEventMaskSoftwakeup : BitVec 32 := 0x200

def xmemIoErrorParity : BitVec 32 := 0x1
def xmemIoErrorRogue : BitVec 32 := 0x2
def xmemIoErrorContact : BitVec 32 := 0x4
def xmemIoErrorHardware : BitVec 32 := 0x8

/-! ## The model -/

inductive XmemDrvrIntIdx
  | int1
  | int2
  | segmentUpdate
  | pendingInit
  | softwakeup

structure XmemDrvrReadBuf where
  ndData : XmemDrvrIntIdx → BitVec 32
  nodeId : XmemDrvrIntIdx → BitVec 32
  mask : BitVec 32

structure XmemCallbackStruct where
  mask : BitVec 32
  table : BitVec 32
  node : BitVec 32
  data : BitVec 32
deriving DecidableEq

/-- The variables of `VmicWait`, and the calls of the callback so far. -/
structure WaitState where
  cbs : XmemCallbackStruct
  emsk : BitVec 32
  calls : List XmemCallbackStruct
deriving DecidableEq

/-- `if (callmask & event) callback(&cbs)`. -/
def WaitState.called (s : WaitState) (callmask event : BitVec 32) : WaitState :=
  if callmask &&& event ≠ 0 then { s with calls := s.calls ++ [s.cbs] } else s

section Wait
variable (shiftOut : BitVec 32 → BitVec 32)

/-- `1 << (id - 1)`; `shiftOut` says what the processor has for a shift by more than the width of the word. -/
def nodeOf (id : BitVec 32) : BitVec 32 := if (id - 1).toNat < 32 then 1#32 <<< (id - 1).toNat else shiftOut id

variable (rbf : XmemDrvrReadBuf) (callmask : BitVec 32)

/-- The cases that report an error with its code. -/
def ioCase (s : WaitState) (error : BitVec 32) : WaitState :=
  WaitState.called
    { s with cbs := { s.cbs with mask := xmemEventMaskIo, data := error }, emsk := s.emsk ||| xmemEventMaskIo }
    callmask xmemEventMaskIo

/-- The cases of the interrupts with a table. -/
def tableCase (s : WaitState) (event : BitVec 32) (idx : XmemDrvrIntIdx) : WaitState :=
  WaitState.called
    { s with
      cbs := { s.cbs with mask := event, node := nodeOf shiftOut (rbf.nodeId idx), table := rbf.ndData idx }
      emsk := s.emsk ||| event }
    callmask event

/-- One turn of the loop. -/
def waitSource (s : WaitState) (i : ℕ) : WaitState :=
  let imsk := 1#32 <<< i &&& rbf.mask
  if imsk = xmemDrvrIntrParityError then ioCase callmask s xmemIoErrorParity
  else if imsk = xmemDrvrIntrRxOverflow then ioCase callmask s xmemIoErrorHardware
  else if imsk = xmemDrvrIntrRxAlmostFull then ioCase callmask s xmemIoErrorHardware
  else if imsk = xmemDrvrIntrDataError then ioCase callmask s xmemIoErrorHardware
  else if imsk = xmemDrvrIntrLostSync then ioCase callmask s xmemIoErrorContact
  else if imsk = xmemDrvrIntrRogueClobber then ioCase callmask s xmemIoErrorRogue
  else if imsk = xmemDrvrIntrPendingInit then
    -- this case does not add its event to `emsk`
    WaitState.called
      { s with
        cbs := { s.cbs with
          mask := xmemEventMaskInitialized
          node := nodeOf shiftOut (rbf.nodeId .pendingInit)
          data := rbf.ndData .pendingInit } }
      callmask xmemEventMaskInitialized
  else if imsk = xmemDrvrIntrRequestReset then
    WaitState.called
      { s with cbs := { s.cbs with mask := xmemEventMaskKill }, emsk := s.emsk ||| xmemEventMaskKill }
      callmask xmemEventMaskKill
  else if imsk = xmemDrvrIntrSegmentUpdate then
    tableCase shiftOut rbf callmask s xmemEventMaskTableUpdate .segmentUpdate
  else if imsk = xmemDrvrIntrInt2 then tableCase shiftOut rbf callmask s xmemEventMaskSendTable .int2
  else if imsk = xmemDrvrIntrInt1 then
    WaitState.called
      { s with
        cbs := { s.cbs with
          mask := xmemEventMaskUser
          node := nodeOf shiftOut (rbf.nodeId .int1)
          data := rbf.ndData .int1 }
        emsk := s.emsk ||| xmemEventMaskUser }
      callmask xmemEventMaskUser
  else if imsk = xmemDrvrIntrSoftwakeup then tableCase shiftOut rbf callmask s xmemEventMaskSoftwakeup .softwakeup
  else s

end Wait

def blankCallback : XmemCallbackStruct := ⟨0, 0, 0, 0⟩

/-- The calls of the callback and the value returned; `none` where `read` fails or times out. Nothing is read without a
callback. -/
def vmicWait (shiftOut : BitVec 32 → BitVec 32) (callmask : BitVec 32) (read : Option XmemDrvrReadBuf) :
    List XmemCallbackStruct × BitVec 32 :=
  if callmask = 0 then ([], 0)
  else
    match read with
    | none =>
      (if callmask &&& xmemEventMaskTimeout ≠ 0 then [{ blankCallback with mask := xmemEventMaskTimeout }] else [],
        xmemEventMaskTimeout)
    | some rbf =>
      let s := (List.range xmemDrvrIntrSources).foldl (waitSource shiftOut rbf callmask) ⟨blankCallback, 0, []⟩
      (s.calls, s.emsk)

/-- The interrupts that `VmicRegisterCallback` connects to for an event. -/
def connectedSources (event : BitVec 32) : BitVec 32 :=
  if event = xmemEventMaskSendTable then xmemDrvrIntrInt2
  else if event = xmemEventMaskUser then xmemDrvrIntrInt1
  else if event = xmemEventMaskTableUpdate then xmemDrvrIntrSegmentUpdate
  else if event = xmemEventMaskInitialized then xmemDrvrIntrPendingInit
  else if event = xmemEventMaskIo then
    xmemDrvrIntrParityError ||| xmemDrvrIntrLostSync ||| xmemDrvrIntrRxOverflow ||| xmemDrvrIntrRxAlmostFull |||
      xmemDrvrIntrDataError ||| xmemDrvrIntrRogueClobber
  else if event = xmemEventMaskKill then xmemDrvrIntrRequestReset
  else if event = xmemEventMaskSoftwakeup then xmemDrvrIntrSoftwakeup
  else 0

/-! ## Events of their own -/

/-- An event with the values that belong to it. -/
structure SourceEvent where
  event : BitVec 32
  table : Option (BitVec 32)
  node : Option (BitVec 32)
  data : Option (BitVec 32)

/-- The structure that an event leaves when it is put into one. -/
def SourceEvent.into (e : SourceEvent) (cbs : XmemCallbackStruct) : XmemCallbackStruct :=
  ⟨e.event, e.table.getD cbs.table, e.node.getD cbs.node, e.data.getD cbs.data⟩

section Events
variable (shiftOut : BitVec 32 → BitVec 32) (rbf : XmemDrvrReadBuf) (callmask : BitVec 32)

def sourceEvent : ℕ → Option SourceEvent
  | 0 => some ⟨xmemEventMaskUser, none, some (nodeOf shiftOut (rbf.nodeId .int1)), some (rbf.ndData .int1)⟩
  | 1 => some ⟨xmemEventMaskSendTable, some (rbf.ndData .int2), some (nodeOf shiftOut (rbf.nodeId .int2)), none⟩
  | 2 =>
    some ⟨xmemEventMaskTableUpdate, some (rbf.ndData .segmentUpdate),
      some (nodeOf shiftOut (rbf.nodeId .segmentUpdate)), none⟩
  | 3 => some ⟨xmemEventMaskKill, none, none, none⟩
  | 6 => some ⟨xmemEventMaskIo, none, none, some xmemIoErrorRogue⟩
  | 7 =>
    some ⟨xmemEventMaskInitialized, none, some (nodeOf shiftOut (rbf.nodeId .pendingInit)),
      some (rbf.ndData .pendingInit)⟩
  | 8 => some ⟨xmemEventMaskIo, none, none, some xmemIoErrorHardware⟩
  | 9 => some ⟨xmemEventMaskIo, none, none, some xmemIoErrorHardware⟩
  | 10 => some ⟨xmemEventMaskIo, none, none, some xmemIoErrorHardware⟩
  | 11 => some ⟨xmemEventMaskIo, none, none, some xmemIoErrorContact⟩
  | 13 => some ⟨xmemEventMaskIo, none, none, some xmemIoErrorParity⟩
  | 16 => some ⟨xmemEventMaskSoftwakeup, some (rbf.ndData .softwakeup),
    some (nodeOf shiftOut (rbf.nodeId .softwakeup)), none⟩
  | _ => none

/-- The events of the sources that are set, in the order of the sources. -/
def setEvents : List SourceEvent :=
  (List.range xmemDrvrIntrSources).filterMap fun i => if rbf.mask.getLsbD i then sourceEvent shiftOut rbf i else none

/-- The calls with a structure for each event. -/
def ownCalls : List SourceEvent → List XmemCallbackStruct
  | [] => []
  | e :: es => (if callmask &&& e.event ≠ 0 then [e.into blankCallback] else []) ++ ownCalls es

def unionOf (es : List SourceEvent) : BitVec 32 := es.foldl (fun emsk e => emsk ||| e.event) 0

/-- Each event that is set is handed over with its own values, and the value returned has all of them. -/
def Dispatches : Prop :=
  callmask ≠ 0 →
    vmicWait shiftOut callmask (some rbf) =
      (ownCalls callmask (setEvents shiftOut rbf), unionOf (setEvents shiftOut rbf))

end Events

/-! ## The loop as a fold over the events -/

section Loop
variable {shiftOut : BitVec 32 → BitVec 32} {rbf : XmemDrvrReadBuf} {callmask : BitVec 32} {s : WaitState} {i : ℕ}
  {event : BitVec 32} {e : SourceEvent}

theorem source_bit (m : BitVec 32) (i : ℕ) : 1#32 <<< i &&& m = if m.getLsbD i then 1#32 <<< i else 0 := by
  rw [← BitVec.twoPow_eq]
  exact BitVec.twoPow_and m i

/-- The structure is the one of the events before. -/
def waitEvent (callmask : BitVec 32) (s : WaitState) (e : SourceEvent) : WaitState :=
  WaitState.called
    { s with
      cbs := e.into s.cbs
      emsk := if e.event = xmemEventMaskInitialized then s.emsk else s.emsk ||| e.event }
    callmask e.event

theorem waitSource_eq (hi : i < xmemDrvrIntrSources) : waitSource shiftOut rbf callmask s i
    = match if rbf.mask.getLsbD i then sourceEvent shiftOut rbf i else none with
      | none => s
      | some e => waitEvent callmask s e := by
  unfold xmemDrvrIntrSources at hi
  unfold waitSource
  rw [source_bit]
  cases rbf.mask.getLsbD i with
  | false => rfl
  | true => interval_cases i <;> rfl

/-- The event of a source, whatever the node and the data are. -/
def eventOf (i : ℕ) : Option (BitVec 32) := (sourceEvent id ⟨fun _ => 0, fun _ => 0, 0⟩ i).map (·.event)

theorem sourceEvent_event : (sourceEvent shiftOut rbf i).map (·.event) = eventOf i := by
  unfold eventOf sourceEvent
  split <;> rfl

theorem connectedSources_event :
    ∀ i < xmemDrvrIntrSources, (connectedSources event).getLsbD i = true ↔ eventOf i = some event := by
  unfold connectedSources
  split_ifs with hsend huser hupdate hinit hio hkill hwakeup
  · subst hsend
    decide
  · subst huser
    decide
  · subst hupdate
    decide
  · subst hinit
    decide
  · subst hio
    decide +kernel
  · subst hkill
    decide
  · subst hwakeup
    decide
  · intro i hi
    have hknown : ∀ i < xmemDrvrIntrSources, eventOf i ∈ [none, some xmemEventMaskSendTable, some xmemEventMaskUser,
        some xmemEventMaskTableUpdate, some xmemEventMaskInitialized, some xmemEventMaskIo, some xmemEventMaskKill,
        some xmemEventMaskSoftwakeup] := by
      decide
    have hnone : eventOf i ≠ some event := by
      intro hsome
      have hmem := hknown i hi
      rw [hsome] at hmem
      simp [hsend, huser, hupdate, hinit, hio, hkill, hwakeup] at hmem
    simp [hnone]

/-- The events are those that a registration connects the sources for. -/
theorem sourceEvent_connected (hi : i < xmemDrvrIntrSources) :
    (connectedSources event).getLsbD i = true ↔ (sourceEvent shiftOut rbf i).map (·.event) = some event := by
  rw [sourceEvent_event]
  exact connectedSources_event i hi

theorem setEvents_event (he : e ∈ setEvents shiftOut rbf) :
    ∃ i < xmemDrvrIntrSources, rbf.mask.getLsbD i = true ∧ eventOf i = some e.event := by
  obtain ⟨i, hi, hset⟩ := List.mem_filterMap.mp he
  split at hset
  · rename_i hbit
    refine ⟨i, List.mem_range.mp hi, hbit, ?_⟩
    have hevent : (sourceEvent shiftOut rbf i).map (·.event) = eventOf i := sourceEvent_event
    rw [← hevent, hset]
    rfl
  · cases hset

/-- The loop over the sources is one over the events. -/
theorem foldl_waitSource : (List.range xmemDrvrIntrSources).foldl (waitSource shiftOut rbf callmask) s
    = (setEvents shiftOut rbf).foldl (waitEvent callmask) s := by
  rw [setEvents, List.foldl_filterMap]
  apply List.foldl_ext
  intro s i hi
  rw [waitSource_eq (List.mem_range.mp hi)]
  generalize (if rbf.mask.getLsbD i = true then sourceEvent shiftOut rbf i else none) = found
  cases found <;> rfl

end Loop

/-! ## What an event finds in the structure -/

section Fold
variable {callmask : BitVec 32} {s : WaitState} {cbs : XmemCallbackStruct} {es before : List SourceEvent}
    {e : SourceEvent}

/-- The structure after some events. -/
def leftBy (es : List SourceEvent) (cbs : XmemCallbackStruct) : XmemCallbackStruct :=
  es.foldl (fun cbs e => e.into cbs) cbs

/-- The calls with one structure for all events. -/
def callsFrom (callmask : BitVec 32) : XmemCallbackStruct → List SourceEvent → List XmemCallbackStruct
  | _, [] => []
  | cbs, e :: es => (if callmask &&& e.event ≠ 0 then [e.into cbs] else []) ++ callsFrom callmask (e.into cbs) es

def countedUnion (emsk : BitVec 32) (es : List SourceEvent) : BitVec 32 :=
  es.foldl (fun emsk e => if e.event = xmemEventMaskInitialized then emsk else emsk ||| e.event) emsk

theorem foldl_waitEvent : es.foldl (waitEvent callmask) s
    = ⟨leftBy es s.cbs, countedUnion s.emsk es, s.calls ++ callsFrom callmask s.cbs es⟩ := by
  induction es generalizing s with
  | nil =>
    rw [callsFrom, List.append_nil]
    rfl
  | cons e es ih =>
    rw [List.foldl_cons, ih, callsFrom]
    unfold waitEvent WaitState.called
    split
    · simp [leftBy, countedUnion]
    · simp [leftBy, countedUnion]

theorem vmicWait_eq {shiftOut : BitVec 32 → BitVec 32} {rbf : XmemDrvrReadBuf} (hcallmask : callmask ≠ 0) :
    vmicWait shiftOut callmask (some rbf)
      = (callsFrom callmask blankCallback (setEvents shiftOut rbf), countedUnion 0 (setEvents shiftOut rbf)) := by
  rw [vmicWait, if_neg hcallmask]
  simp only [foldl_waitSource, foldl_waitEvent, List.nil_append]

/-- A field of the structure is that of the last event that defines it. -/
theorem foldl_getD {f : SourceEvent → Option (BitVec 32)} (v : BitVec 32) :
    es.foldl (fun v e => (f e).getD v) v = (es.filterMap f).getLast?.getD v := by
  induction es generalizing v with
  | nil => rfl
  | cons e es ih =>
    rw [List.foldl_cons, ih, List.filterMap_cons]
    cases f e with
    | none => rfl
    | some w => simp [List.getLast?_cons]

theorem leftBy_table : (leftBy es cbs).table = (es.filterMap (·.table)).getLast?.getD cbs.table := by
  rw [← foldl_getD, leftBy]
  induction es generalizing cbs with
  | nil => rfl
  | cons e es ih => exact ih

theorem leftBy_node : (leftBy es cbs).node = (es.filterMap (·.node)).getLast?.getD cbs.node := by
  rw [← foldl_getD, leftBy]
  induction es generalizing cbs with
  | nil => rfl
  | cons e es ih => exact ih

theorem leftBy_data : (leftBy es cbs).data = (es.filterMap (·.data)).getLast?.getD cbs.data := by
  rw [← foldl_getD, leftBy]
  induction es generalizing cbs with
  | nil => rfl
  | cons e es ih => exact ih

/-- The calls are right where every event that is handed over makes of the structure what it makes of an empty one. -/
theorem callsFrom_eq_ownCalls : callsFrom callmask cbs es = ownCalls callmask es ↔
    ∀ before e behind, es = before ++ e :: behind → callmask &&& e.event ≠ 0 →
      e.into (leftBy before cbs) = e.into blankCallback := by
  induction es generalizing cbs with
  | nil => simp [callsFrom, ownCalls]
  | cons e es ih =>
    have hsplit {xs xs' ys ys' : List XmemCallbackStruct} (hlength : xs.length = xs'.length) :
        xs ++ ys = xs' ++ ys' ↔ xs = xs' ∧ ys = ys' :=
      ⟨fun h => List.append_inj h hlength, fun h => by rw [h.1, h.2]⟩
    have hhead : (if callmask &&& e.event ≠ 0 then [e.into cbs] else [])
        = (if callmask &&& e.event ≠ 0 then [e.into blankCallback] else [])
          ↔ (callmask &&& e.event ≠ 0 → e.into cbs = e.into blankCallback) := by
      by_cases hsubscribed : callmask &&& e.event ≠ 0
      · rw [if_pos hsubscribed, if_pos hsubscribed]
        exact ⟨fun heq _ => List.head_eq_of_cons_eq heq, fun heq => congrArg (· :: []) (heq hsubscribed)⟩
      · rw [if_neg hsubscribed, if_neg hsubscribed]
        exact ⟨fun _ hnot => absurd hnot hsubscribed, fun _ => rfl⟩
    have hlength : (if callmask &&& e.event ≠ 0 then [e.into cbs] else []).length
        = (if callmask &&& e.event ≠ 0 then [e.into blankCallback] else []).length := by
      split <;> rfl
    rw [callsFrom, ownCalls, hsplit hlength, hhead, ih]
    constructor
    · rintro ⟨hfirst, hlater⟩ before e' behind heq hsubscribed
      cases before with
      | nil =>
        obtain ⟨rfl, -⟩ := List.cons.inj heq
        exact hfirst hsubscribed
      | cons b before =>
        obtain ⟨rfl, hrest⟩ := List.cons.inj heq
        exact hlater before e' behind hrest hsubscribed
    · intro hall
      refine ⟨hall [] e es rfl, fun before e' behind heq hsubscribed => ?_⟩
      exact hall (e :: before) e' behind (congrArg (e :: ·) heq) hsubscribed

/-- What the events before leave in the fields that an event does not define is zero. -/
structure FindsBlank (before : List SourceEvent) (e : SourceEvent) : Prop where
  table : e.table = none → (before.filterMap (·.table)).getLast?.getD 0 = 0
  node : e.node = none → (before.filterMap (·.node)).getLast?.getD 0 = 0
  data : e.data = none → (before.filterMap (·.data)).getLast?.getD 0 = 0

theorem getD_eq_iff {f : Option (BitVec 32)} {v : BitVec 32} : f.getD v = f.getD 0 ↔ (f = none → v = 0) := by
  cases f <;> simp

theorem into_leftBy_iff : e.into (leftBy before blankCallback) = e.into blankCallback ↔ FindsBlank before e := by
  have hfields : e.into (leftBy before blankCallback) = e.into blankCallback ↔
      e.table.getD (leftBy before blankCallback).table = e.table.getD 0 ∧
      e.node.getD (leftBy before blankCallback).node = e.node.getD 0 ∧
      e.data.getD (leftBy before blankCallback).data = e.data.getD 0 := by
    simp [SourceEvent.into, blankCallback]
  rw [hfields, getD_eq_iff, getD_eq_iff, getD_eq_iff, leftBy_table, leftBy_node, leftBy_data]
  exact ⟨fun h => ⟨h.1, h.2.1, h.2.2⟩, fun h => ⟨h.table, h.node, h.data⟩⟩

/-! ### The value returned -/

theorem foldl_or_bit {emsk : BitVec 32} (k : ℕ) : (es.foldl (fun emsk e => emsk ||| e.event) emsk).getLsbD k
    = (emsk.getLsbD k || es.any fun e => e.event.getLsbD k) := by
  induction es generalizing emsk with
  | nil => simp
  | cons e es ih => rw [List.foldl_cons, ih, BitVec.getLsbD_or, List.any_cons, Bool.or_assoc]

theorem countedUnion_bit {emsk : BitVec 32} {k : ℕ}
    (hother : ∀ e ∈ es, e.event ≠ xmemEventMaskInitialized → e.event.getLsbD k = false) :
    (countedUnion emsk es).getLsbD k = emsk.getLsbD k := by
  induction es generalizing emsk with
  | nil => rfl
  | cons e es ih =>
    have hrest : (countedUnion emsk (e :: es)).getLsbD k =
        (if e.event = xmemEventMaskInitialized then emsk else emsk ||| e.event).getLsbD k :=
      ih fun e' he' => hother e' (List.mem_cons_of_mem e he')
    have hhere : (if e.event = xmemEventMaskInitialized then emsk else emsk ||| e.event).getLsbD k =
      emsk.getLsbD k := by
      split
      · rfl
      · rename_i hevent
        rw [BitVec.getLsbD_or, hother e List.mem_cons_self hevent, Bool.or_false]
    exact hrest.trans hhere

theorem countedUnion_eq {emsk : BitVec 32} (hnone : ∀ e ∈ es, e.event ≠ xmemEventMaskInitialized) :
    countedUnion emsk es = es.foldl (fun emsk e => emsk ||| e.event) emsk := by
  apply List.foldl_ext
  intro emsk e he
  exact if_neg (hnone e he)

end Fold

section Results
variable {shiftOut : BitVec 32 → BitVec 32} {rbf : XmemDrvrReadBuf} {callmask : BitVec 32}

theorem initialized_set : (∃ e ∈ setEvents shiftOut rbf, e.event = xmemEventMaskInitialized) ↔
    rbf.mask &&& xmemDrvrIntrPendingInit ≠ 0 := by
  have hbit : rbf.mask &&& xmemDrvrIntrPendingInit ≠ 0 ↔ rbf.mask.getLsbD 7 = true := by
    have hsource : xmemDrvrIntrPendingInit &&& rbf.mask = if rbf.mask.getLsbD 7 then 1#32 <<< 7 else 0 :=
      source_bit rbf.mask 7
    rw [BitVec.and_comm, hsource]
    cases rbf.mask.getLsbD 7 with
    | true => simp
    | false => simp
  rw [hbit]
  constructor
  · rintro ⟨e, he, hevent⟩
    obtain ⟨i, hi, hset, hsource⟩ := setEvents_event he
    rw [hevent] at hsource
    have honly : ∀ i < xmemDrvrIntrSources, eventOf i = some xmemEventMaskInitialized → i = 7 := by decide
    rwa [honly i hi hsource] at hset
  · intro hset
    have hrange : 7 ∈ List.range xmemDrvrIntrSources := by decide
    exact ⟨_, List.mem_filterMap.mpr ⟨7, hrange, if_pos hset⟩, rfl⟩

theorem countedUnion_iff : countedUnion 0 (setEvents shiftOut rbf) = unionOf (setEvents shiftOut rbf) ↔
    rbf.mask &&& xmemDrvrIntrPendingInit = 0 := by
  have hset : (∃ e ∈ setEvents shiftOut rbf, e.event = xmemEventMaskInitialized) ↔
      rbf.mask &&& xmemDrvrIntrPendingInit ≠ 0 := initialized_set
  rw [← not_iff_not, ← ne_eq, ← ne_eq, ← hset]
  constructor
  · intro hne
    by_contra hnone
    refine hne (countedUnion_eq fun e he hevent => ?_)
    exact hnone ⟨e, he, hevent⟩
  · rintro ⟨e, he, hevent⟩ heq
    have hother : ∀ e ∈ setEvents shiftOut rbf, e.event ≠ xmemEventMaskInitialized → e.event.getLsbD 4 = false := by
      intro e he hne
      obtain ⟨i, hi, -, hsource⟩ := setEvents_event he
      have hbits : ∀ i < xmemDrvrIntrSources, eventOf i ∈ [none, some xmemEventMaskInitialized] ∨
          (eventOf i).all (fun event => !event.getLsbD 4) = true := by decide
      obtain hmem | hclear := hbits i hi
      · rw [hsource] at hmem
        simp [hne] at hmem
      · rw [hsource] at hclear
        simpa using hclear
    have hcounted : (countedUnion 0 (setEvents shiftOut rbf)).getLsbD 4 = false := countedUnion_bit hother
    have hunion : (unionOf (setEvents shiftOut rbf)).getLsbD 4 = true := by
      have hbit : e.event.getLsbD 4 = true := by
        rw [hevent]
        rfl
      rw [unionOf, foldl_or_bit, List.any_eq_true.mpr ⟨e, he, hbit⟩, Bool.or_true]
    rw [heq, hunion] at hcounted
    cases hcounted

/-- The events of a read buffer are dispatched right if and only if no node is pending for initialization, whose event
is not returned, and no event that is handed over finds a value of an earlier source in a field that it does not define.
-/
theorem dispatches_iff : Dispatches shiftOut rbf callmask ↔ callmask = 0 ∨
    rbf.mask &&& xmemDrvrIntrPendingInit = 0 ∧
      ∀ before e behind, setEvents shiftOut rbf = before ++ e :: behind → callmask &&& e.event ≠ 0 →
      FindsBlank before e := by
  by_cases hcallmask : callmask = 0
  · exact ⟨fun _ => .inl hcallmask, fun _ hne => absurd hcallmask hne⟩
  have hpair : Dispatches shiftOut rbf callmask ↔
      countedUnion 0 (setEvents shiftOut rbf) = unionOf (setEvents shiftOut rbf) ∧
        callsFrom callmask blankCallback (setEvents shiftOut rbf) = ownCalls callmask (setEvents shiftOut rbf) := by
    rw [Dispatches, vmicWait_eq hcallmask, Prod.mk.injEq]
    exact ⟨fun h => ⟨(h hcallmask).2, (h hcallmask).1⟩, fun h _ => ⟨h.2, h.1⟩⟩
  simp only [hpair, countedUnion_iff, callsFrom_eq_ownCalls, into_leftBy_iff, hcallmask, false_or]

end Results

/-! ## A read buffer with two sources -/

/-- The interrupt 1 of node 3 with the data 5, and an update of the segment 2 by node 1. -/
def twoSources : XmemDrvrReadBuf where
  ndData
    | .int1 => 5
    | .segmentUpdate => 2
    | _ => 0
  nodeId
    | .int1 => 3
    | .segmentUpdate => 1
    | _ => 0
  mask := xmemDrvrIntrInt1 ||| xmemDrvrIntrSegmentUpdate

/-- The update of the table has the data of the user's interrupt. -/
theorem not_dispatches_twoSources : ¬Dispatches id twoSources (xmemEventMaskUser ||| xmemEventMaskTableUpdate) := by
  intro hdispatches
  have hcallmask : xmemEventMaskUser ||| xmemEventMaskTableUpdate ≠ 0 := by decide
  have hdata := congrArg (fun out => out.1.map (·.data)) (hdispatches hcallmask)
  have hcode : (vmicWait id (xmemEventMaskUser ||| xmemEventMaskTableUpdate) (some twoSources)).1.map (·.data) =
    [5, 5] := by
    decide +kernel
  have hown : (ownCalls (xmemEventMaskUser ||| xmemEventMaskTableUpdate) (setEvents id twoSources)).map (·.data) =
    [5, 0] := by
    decide +kernel
  simp only [hcode, hown] at hdata
  exact absurd hdata (by decide)

end HtDrivers.Xmem
