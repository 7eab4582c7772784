import HtDrivers.Lib.MaskLoop

/-! The VD80 sampler: its registers behind the ioctls of the driver (`vd80Drvr.c`), and the calls of the library
(`vd80lib.c`), which select a module and go from module to module by a mask. -/
namespace HtDrivers.Vd80
open HtDrivers.Lib.MaskLoop
set_option autoImplicit false

/-! ## Registers -/

/-- By the number of the word: the offset over four. -/
abbrev Registers := ℕ → BitVec 32

def vd80GCR1 : ℕ := 0x10
def vd80GCR2 : ℕ := 0x14
def vd80TCR1 : ℕ := 0x20
def vd80TCR2 : ℕ := 0x24
def vd80TSR : ℕ := 0x28
def vd80SSR : ℕ := 0x2c
def vd80MCR1 : ℕ := 0x50
def vd80MCR2 : ℕ := 0x54
def vd80PTSR : ℕ := 0x58
def vd80PTCR : ℕ := 0x5c
def vd80TCR3 : ℕ := 0x64
def vd80AtrigChan1 : ℕ := 0xc0

def vd80CHANNELS : ℕ := 16
def vd80MODULES : ℕ := 16

/-- `VD80_BIGEND | VD80_BYTESWAP` -/
def vd80Swap : BitVec 32 := 1 <<< 5 ||| 1 <<< 7

structure SkelDrvrModuleContext where
  /-- `SkelDrvrStandardStatusEMULATION` -/
  emulation : Bool
  /-- `SkelDrvrStandardStatusNO_HARDWARE` -/
  noHardware : Bool
  /-- The copy that stands for the hardware in emulation. -/
  registers : Registers
  /-- The A24 space is mapped. -/
  mapped : Bool
  map : Registers

/-- The word goes through `cdcm_cpu_to_be32` on its way to the map and through `cdcm_be32_to_cpu` on its way back. -/
def setReg (offset : ℕ) (valu : BitVec 32) (mcon : SkelDrvrModuleContext) : SkelDrvrModuleContext :=
  { mcon with
    registers := Function.update mcon.registers (offset / 4) valu
    map := if mcon.emulation then mcon.map else Function.update mcon.map (offset / 4) valu }

def getReg (offset : ℕ) (mcon : SkelDrvrModuleContext) : BitVec 32 :=
  if mcon.emulation then mcon.registers (offset / 4) else mcon.map (offset / 4)

section Access
variable {offset offset' : ℕ} {valu : BitVec 32} {mcon : SkelDrvrModuleContext}

@[simp] theorem setReg_emulation : (setReg offset valu mcon).emulation = mcon.emulation := rfl
@[simp] theorem setReg_noHardware : (setReg offset valu mcon).noHardware = mcon.noHardware := rfl
@[simp] theorem setReg_mapped : (setReg offset valu mcon).mapped = mcon.mapped := rfl

theorem getReg_setReg :
    getReg offset' (setReg offset valu mcon) = if offset' / 4 = offset / 4 then valu else getReg offset' mcon := by
  unfold getReg setReg
  cases mcon.emulation <;> simp [Function.update_apply]

@[simp] theorem getReg_setReg_self : getReg offset (setReg offset valu mcon) = valu := by
  rw [getReg_setReg, if_pos rfl]

theorem getReg_setReg_ne (h : offset' / 4 ≠ offset / 4) :
    getReg offset' (setReg offset valu mcon) = getReg offset' mcon := by
  rw [getReg_setReg, if_neg h]

end Access

/-! ## What every ioctl does first -/

inductive SkelUserReturn
  | ok
  | failed
deriving DecidableEq

/-- The bus swaps words for a little endian host. -/
def setEndian (little : Bool) (tval : BitVec 32) : BitVec 32 :=
  if little then tval ||| vd80Swap else tval &&& ~~~vd80Swap

/-- The start of `SkelUserIoctls` for a client whose debug mask has `emulation`, or has not: whether the command is
looked at. -/
def enter (little emulation : Bool) (mcon : SkelDrvrModuleContext) : Bool × SkelDrvrModuleContext :=
  if !emulation && mcon.noHardware then (false, mcon)
  else if !emulation && !mcon.mapped then (false, { mcon with emulation := emulation })
  else
    let mcon := { mcon with emulation := emulation }
    (true, setReg vd80GCR2 (setEndian little (getReg vd80GCR2 mcon)) mcon)

/-- The commands of the module can be carried out: it is emulated, or its hardware is there. -/
structure Ready (emulation : Bool) (mcon : SkelDrvrModuleContext) : Prop where
  hardware : emulation = true ∨ mcon.noHardware = false
  space : emulation = true ∨ mcon.mapped = true

/-- The registers that the client sees. -/
def seen (emulation : Bool) (mcon : SkelDrvrModuleContext) (offset : ℕ) : BitVec 32 :=
  getReg offset { mcon with emulation := emulation }

section Enter
variable {little emulation : Bool} {mcon : SkelDrvrModuleContext} {offset : ℕ}

theorem seen_of_eq (h : mcon.emulation = emulation) : seen emulation mcon offset = getReg offset mcon := by
  subst h
  rfl

theorem Ready.enter_eq (h : Ready emulation mcon) :
    enter little emulation mcon =
      (true, setReg vd80GCR2 (setEndian little (seen emulation mcon vd80GCR2))
        { mcon with emulation := emulation }) := by
  obtain ⟨hhardware, hspace⟩ := h
  have hno : (!emulation && mcon.noHardware) = false := by rcases hhardware with h | h <;> simp [h]
  have hmap : (!emulation && !mcon.mapped) = false := by rcases hspace with h | h <;> simp [h]
  simp only [enter, hno, hmap, Bool.false_eq_true, if_false]
  rfl

theorem ready_of_enter (h : (enter little emulation mcon).1 = true) : Ready emulation mcon := by
  unfold enter at h
  split_ifs at h with hno hmap
  constructor <;> cases emulation <;> simp_all

theorem Ready.entered (h : Ready emulation mcon) (little : Bool) :
    (enter little emulation mcon).1 = true ∧ (enter little emulation mcon).2.emulation = emulation ∧
      Ready emulation (enter little emulation mcon).2 := by
  rw [h.enter_eq]
  exact ⟨rfl, rfl, h.hardware, h.space⟩

theorem Ready.enter_getReg (h : Ready emulation mcon) :
    getReg offset (enter little emulation mcon).2 =
      if offset / 4 = vd80GCR2 / 4 then setEndian little (seen emulation mcon vd80GCR2)
      else seen emulation mcon offset := by
  rw [h.enter_eq, getReg_setReg]
  rfl

theorem Ready.enter_getReg_ne (h : Ready emulation mcon) (hne : offset / 4 ≠ vd80GCR2 / 4) :
    getReg offset (enter little emulation mcon).2 = seen emulation mcon offset := by
  rw [h.enter_getReg, if_neg hne]

end Enter

/-! ## The driver -/

/-- The module contexts by their numbers, and what the driver knows of the client and of the host. -/
structure Driver where
  /-- `get_mcon` -/
  modules : ℤ → Option SkelDrvrModuleContext
  installedModules : ℤ
  /-- The module that the client has selected. -/
  moduleNumber : ℤ
  /-- The client's debug mask has `SkelDrvrDebugFlagEMULATION`. -/
  emulation : Bool
  little : Bool

def Driver.put (d : Driver) (mcon : SkelDrvrModuleContext) : Driver :=
  { d with modules := Function.update d.modules d.moduleNumber (some mcon) }

@[simp] theorem Driver.put_modules {d : Driver} {mcon : SkelDrvrModuleContext} :
    (d.put mcon).modules d.moduleNumber = some mcon := Function.update_self _ _ _

/-- A command of `SkelUserIoctls`: what is left of the module and of the argument. -/
abbrev Command (α : Type) := SkelDrvrModuleContext → α → SkelUserReturn × SkelDrvrModuleContext × α

def skelUserIoctls {α : Type} (little emulation : Bool) (command : Command α) : Command α := fun mcon arg =>
  if (enter little emulation mcon).1 then command (enter little emulation mcon).2 arg
  else (.failed, (enter little emulation mcon).2, arg)

/-- `SkelDrvrIoctl`, for a command of the module: the outcome, the driver and the argument of the caller. -/
def ioctl {α : Type} (command : Command α) (d : Driver) (arg : α) : Bool × Driver × α :=
  match d.modules d.moduleNumber with
  | none => (false, d, arg)
  | some mcon =>
    let reply := skelUserIoctls d.little d.emulation command mcon arg
    (decide (reply.1 = .ok), d.put reply.2.1, reply.2.2)

/-! ## The library -/

inductive Vd80Err
  | success
  | io
  | module
deriving DecidableEq

def setModule (d : Driver) (mod : ℤ) : Vd80Err × Driver :=
  if mod < 1 ∨ mod > d.installedModules then (.module, d)
  else
    match d.modules mod with
    | none => (.io, d)
    | some _ => (.success, { d with moduleNumber := mod })

/-- `body` for every module of the mask. -/
def forModules (mods : BitVec 32) (body : Driver → Vd80Err × Driver) : Driver → Vd80Err × Driver :=
  forMask .success mods.getLsbD (fun i d =>
    if (setModule d (i + 1)).1 = .success then body (setModule d (i + 1)).2 else setModule d (i + 1))
    (List.range vd80MODULES)

/-- The outcome of an ioctl that the library does not look at further. -/
def orIo {α : Type} (reply : Bool × Driver × α) : Vd80Err × Driver :=
  (if reply.1 then .success else .io, reply.2.1)

section Library
variable {α : Type} {command : Command α} {arg : α} {d d' : Driver} {mod : ℤ} {mcon : SkelDrvrModuleContext}

theorem setModule_success (h : setModule d mod = (.success, d')) :
    1 ≤ mod ∧ mod ≤ d.installedModules ∧ (∃ mcon, d.modules mod = some mcon) ∧ d' = { d with moduleNumber := mod } := by
  unfold setModule at h
  split_ifs at h with hrange
  · simp at h
  cases hmod : d.modules mod with
  | none => simp [hmod] at h
  | some mcon =>
    simp only [hmod, Prod.mk.injEq, true_and] at h
    exact ⟨by omega, by omega, ⟨mcon, rfl⟩, h.symm⟩

theorem setModule_eq (hpos : 1 ≤ mod) (hle : mod ≤ d.installedModules) (hmod : d.modules mod = some mcon) :
    setModule d mod = (.success, { d with moduleNumber := mod }) := by
  rw [setModule, if_neg (by omega), hmod]

theorem ioctl_eq (hmod : d.modules d.moduleNumber = some mcon) :
    ioctl command d arg =
      (decide ((skelUserIoctls d.little d.emulation command mcon arg).1 = .ok),
        d.put (skelUserIoctls d.little d.emulation command mcon arg).2.1,
        (skelUserIoctls d.little d.emulation command mcon arg).2.2) := by
  rw [ioctl, hmod]

theorem orIo_success (h : orIo (ioctl command d arg) = (.success, d')) :
    ∃ mcon, d.modules d.moduleNumber = some mcon ∧ Ready d.emulation mcon ∧
      (command (enter d.little d.emulation mcon).2 arg).1 = .ok ∧
      d' = d.put (command (enter d.little d.emulation mcon).2 arg).2.1 := by
  cases hmod : d.modules d.moduleNumber with
  | none => simp [orIo, ioctl, hmod] at h
  | some mcon =>
    rw [orIo, Prod.mk.injEq] at h
    obtain ⟨hok, rfl⟩ := h
    have hreply : (ioctl command d arg).1 = true := by
      by_contra hne
      rw [if_neg hne] at hok
      exact absurd hok (by decide)
    rw [ioctl_eq hmod] at hreply ⊢
    have hcommand := of_decide_eq_true hreply
    by_cases henter : (enter d.little d.emulation mcon).1 = true
    · rw [skelUserIoctls, if_pos henter] at hcommand ⊢
      exact ⟨mcon, rfl, ready_of_enter henter, hcommand, rfl⟩
    · rw [skelUserIoctls, if_neg henter] at hcommand
      exact absurd hcommand (by simp)

end Library

/-- What no call of the library changes. -/
structure SameHost (d d' : Driver) : Prop where
  installedModules : d'.installedModules = d.installedModules
  emulation : d'.emulation = d.emulation
  little : d'.little = d.little

/-- A loop over the modules: every selected module was there and went through its own turn, and the other modules are
as before. -/
theorem forModules_success {mods : BitVec 32} {body : Driver → Vd80Err × Driver} {d d' : Driver}
    {R : SkelDrvrModuleContext → SkelDrvrModuleContext → Prop}
    (hbody : ∀ e e' mcon, SameHost d e → e.modules e.moduleNumber = some mcon → body e = (.success, e') →
      ∃ mcon', R mcon mcon' ∧ SameHost d e' ∧ e'.modules = Function.update e.modules e.moduleNumber (some mcon'))
    (h : forModules mods body d = (.success, d')) {i : ℕ} (hi : i < vd80MODULES) (hsel : mods.getLsbD i = true) :
    SameHost d d' ∧ (i : ℤ) + 1 ≤ d.installedModules ∧
      ∃ mcon mcon', d.modules (i + 1) = some mcon ∧ R mcon mcon' ∧ d'.modules (i + 1) = some mcon' := by
  have hturn : ∀ (j : ℕ) (e e' : Driver), (if (setModule e (j + 1)).1 = .success then body (setModule e (j + 1)).2
      else setModule e (j + 1)) = (.success, e') → SameHost d e →
      SameHost d e' ∧ (j : ℤ) + 1 ≤ d.installedModules ∧ ∃ mcon mcon', e.modules (j + 1) = some mcon ∧ R mcon mcon' ∧
        e'.modules = Function.update e.modules (j + 1) (some mcon') := by
    intro j e e' he hhost
    split_ifs at he with hset
    · have hpair : setModule e (j + 1) = (.success, (setModule e (j + 1)).2) := Prod.ext hset rfl
      obtain ⟨-, hle, ⟨mcon, hmcon⟩, heq⟩ := setModule_success hpair
      rw [heq] at he
      obtain ⟨mcon', hr, hhost', hmods⟩ :=
        hbody { e with moduleNumber := j + 1 } e' mcon ⟨hhost.1, hhost.2, hhost.3⟩ hmcon he
      exact ⟨hhost', hhost.installedModules ▸ hle, mcon, mcon', hmcon, hr, hmods⟩
    · exact absurd (congrArg Prod.fst he) hset
  have hplaces := forMask_places (v := fun (e : Driver) (j : ℕ) => e.modules (j + 1))
    (R := fun j old new => (j : ℤ) + 1 ≤ d.installedModules ∧
      ∃ mcon mcon', old = some mcon ∧ R mcon mcon' ∧ new = some mcon')
    (P := SameHost d) (fun j _ e e' he hhost => (hturn j e e' he hhost).1) ?hat ?hother List.nodup_range
    ⟨rfl, rfl, rfl⟩ h i
  case hat =>
    intro j _ e e' he hhost
    obtain ⟨-, hle, mcon, mcon', hmcon, hr, hmods⟩ := hturn j e e' he hhost
    exact ⟨hle, mcon, mcon', hmcon, hr, by rw [hmods, Function.update_self]⟩
  case hother =>
    intro j _ e e' he hhost k hk
    obtain ⟨-, -, mcon, mcon', -, -, hmods⟩ := hturn j e e' he hhost
    rw [hmods, Function.update_of_ne (by omega)]
  obtain ⟨hle, mcon, mcon', hmcon, hr, hmcon'⟩ := hplaces.1 ⟨List.mem_range.mpr hi, hsel⟩
  exact ⟨forMask_keeps (fun j _ e e' he hhost => (hturn j e e' he hhost).1) h ⟨rfl, rfl, rfl⟩, hle, mcon, mcon', hmcon,
    hr, hmcon'⟩

end HtDrivers.Vd80
