import HtDrivers.Cvorg.Clkgen
import HtDrivers.Cvorg.LoadSeq

/-! The calls of the clients of the CVORG driver: open, close, the ioctls of the skeleton (`skeldrvr.c`) that reach a
module, and the CVORG's own (`cvorg-skel.c`, `skeluser_ioctl.h`). What an ioctl only reads is left out. -/
namespace HtDrivers.Cvorg
set_option autoImplicit false

/-! ## Modules -/

/-- What a client may set of a module. The registers of the module itself are among those of the first channel, and
`chip` are those of the clock generator. -/
structure CvorgHw where
  channels : Fin 2 → CvorgContext
  pll : Ad9516Pll
  chip : Ad9516

/-- `owner` is the file of the client that has locked the module. -/
structure CvorgModule where
  owner : Option ℕ
  hw : CvorgHw

/-- `__cvorg_check_perm`. -/
def cvorgCheckPerm (cvorg : CvorgModule) (file : ℕ) : Bool := cvorg.owner.isSome && decide (cvorg.owner ≠ some file)

def cvorgPllCfgInit : Ad9516Pll := ⟨0, 4375, 16, 1000, 2, 14, 1, 0⟩

/-- `__cvorg_reset`, where the FPGA's reset and the start of the clock generator left `fpga` and `chip`. -/
def cvorgReset (fpga : Fin 2 → CvorgChannel) (chip : Ad9516) : CvorgHw :=
  let (chip, pll, _) := clkgenApplyPllConf chip cvorgPllCfgInit
  { channels := fun n => resetChannel (fpga n), pll := pll, chip := chip }

inductive SkelErrno where
  | ioctl (errno : IoctlErrno)
  | ebadf | enodev | eacces | eintr | enotty | enxio | etime

abbrev Reply := Except SkelErrno Unit

/-! ## CVORG ioctls -/

def cvorgIoctlNoLocking : ℕ := 10

def cvorgIoctlLocking : ℕ := 50

/-- The ioctls with what they are given and what they find: a busy channel, a busy SRAM, whether the ADC delivers in
time and whether the sampling frequency settles. -/
inductive CvorgIoctl where
  | gChannel
  | sChannel (nr : ℤ)
  | gOutOffset
  | sOutOffset (offset : U32)
  | gInPolarity
  | sInPolarity (busy : Bool) (polarity : ℤ)
  | gPll
  | sPll (busy : Bool) (pll : Ad9516Pll) (settles : Bool)
  | gSram (sramBusy : Bool) (address : U32)
  | sSram (busy sramBusy : Bool) (address : U32) (data0 data1 : U16)
  | sTrigger (trig : U32)
  | sLoadseq (io : LoadIo) (seq : UserSeq)
  | gChanstat
  | gSampfreq
  | tUnlockForce
  | tUnlock
  | tLock
  | gMode
  | sMode (mode : U32)
  | gOutGain
  | sOutGain (busy : Bool) (gain : ℤ)
  | gAdcRead (busy : Bool) (adcChannel range : ℕ) (upToDate : Bool)
  | gDacVal
  | sDacVal (val : U32)
  | gDacGain
  | sDacGain (val : U16)
  | gDacOffset
  | sDacOffset (offset : ℤ)
  | gTemperature
  | sOutEnable (enable : ℤ)
  | gPcbId
  | unknown (nr : ℕ)

/-- `_IOC_NR` of the commands. -/
def CvorgIoctl.nr : CvorgIoctl → ℕ
  | .gChannel => 11
  | .sChannel _ => 12
  | .gOutOffset => 13
  | .sOutOffset _ => 53
  | .gInPolarity => 14
  | .sInPolarity _ _ => 54
  | .gPll => 15
  | .sPll _ _ _ => 55
  | .gSram _ _ => 16
  | .sSram _ _ _ _ _ => 56
  | .sTrigger _ => 57
  | .sLoadseq _ _ => 58
  | .gChanstat => 19
  | .gSampfreq => 20
  | .tUnlockForce => 21
  | .tUnlock => 61
  | .tLock => 62
  | .gMode => 23
  | .sMode _ => 63
  | .gOutGain => 24
  | .sOutGain _ _ => 64
  | .gAdcRead _ _ _ _ => 65
  | .gDacVal => 26
  | .sDacVal _ => 66
  | .gDacGain => 27
  | .sDacGain _ => 67
  | .gDacOffset => 28
  | .sDacOffset _ => 68
  | .gTemperature => 29
  | .sOutEnable _ => 70
  | .gPcbId => 31
  | .unknown nr => nr

def cvorgDacVal : ℕ := 0x048

def cvorgDacCorr : ℕ := 0x05c

def cvorgCtlReadAdc : U32 := 1 <<< 1

def cvorgCtlChanStart : U32 := 1 <<< 4

def cvorgCtlChanEvstop : U32 := 1 <<< 7

def cvorgConfigAdcMask : U32 := (0x7 <<< 24) ||| (0x3 <<< 27)

/-- The bit of CTL that a trigger sets. -/
def triggerToHw (trig : U32) : Option U32 :=
  if trig = 0 then some cvorgCtlChanStart
  else if trig = 1 then some cvorgCtlChanStop
  else if trig = 2 then some cvorgCtlChanEvstop
  else none

def cvorgModeIsValid (mode : U32) : Bool := decide (mode.toNat ≤ 5)

def cvorgModeToHw (mode : U32) : U32 :=
  match mode.toNat with
  | 0 => 0x0
  | 2 => 0x3
  | 3 => 0x8
  | 4 => 0x9
  | 5 => 0xa
  | _ => 0x1

/-- MONITOR, REF, 5V and GND. -/
def cvorgAdcChannelToHw (adcChannel : ℕ) : Option U32 :=
  if adcChannel < 4 then some (BitVec.ofNat 32 (adcChannel + 1) <<< 24) else none

/-- 5V and 10V, bipolar and unipolar. -/
def cvorgAdcRangeToHw (range : ℕ) : Option U32 :=
  match range with
  | 0 => some (0x0 <<< 27)
  | 1 => some (0x2 <<< 27)
  | 2 => some (0x1 <<< 27)
  | 3 => some (0x3 <<< 27)
  | _ => none

/-- `gs_sram_ioctl`: with data, they are written. The pointer moves on in either case. -/
def gsSram (e : CvorgEndian) (channel : CvorgContext) (busy sramBusy : Bool) (address : U32)
    (data : Option (U16 × U16)) : CvorgContext × Reply :=
  if data.isSome && busy then (channel, .error (.ioctl .ebusy))
  else if address.toNat ≥ cvorgSramSize then (channel, .error (.ioctl .einval))
  else if sramBusy then (channel, .error (.ioctl .eagain))
  else
    let hw := cvorgWchan channel.hw cvorgSramAddr (address &&& ~~~3)
    match data with
    | none => ({ channel with hw := { hw with sramAddr := hw.sramAddr + 1 } }, .ok ())
    | some data => ({ channel with hw := cvorgWchan hw cvorgSramData (cvorgCpuToHw e data.1 data.2) }, .ok ())

def sTrigIoctl (channel : CvorgContext) (trig : U32) : CvorgContext × Reply :=
  match triggerToHw trig with
  | none => (channel, .error (.ioctl .einval))
  | some cmd => ({ channel with hw := cvorgWchan channel.hw cvorgCtl cmd }, .ok ())

/-- `cvorg_gs_mode_ioctl` with `set`. -/
def gsMode (channel : CvorgContext) (mode : U32) : CvorgContext × Reply :=
  if !cvorgModeIsValid mode then (channel, .error (.ioctl .einval))
  else
    let regval := cvorgRchan channel.hw cvorgConfig &&& ~~~cvorgConfigMode ||| cvorgModeToHw mode
    ({ channel with hw := cvorgWchan channel.hw cvorgConfig regval }, .ok ())

def cvorgAdcReadIoctl (channel : CvorgContext) (busy : Bool) (adcChannel range : ℕ) (upToDate : Bool) :
    CvorgContext × Reply :=
  if busy then (channel, .error (.ioctl .ebusy))
  else match cvorgAdcChannelToHw adcChannel, cvorgAdcRangeToHw range with
    | some select, some range =>
      let hw := cvorgUchan channel.hw cvorgConfig (select ||| range) cvorgConfigAdcMask
      ({ channel with hw := cvorgWchan hw cvorgCtl cvorgCtlReadAdc },
        if upToDate then .ok () else .error (.ioctl .eagain))
    | _, _ => (channel, .error (.ioctl .einval))

def dacVal (channel : CvorgContext) (val : U32) : CvorgContext :=
  { channel with hw := cvorgWchan channel.hw cvorgDacVal (val &&& 0x3fff) }

def dacGain (channel : CvorgContext) (val : U16) : CvorgContext :=
  { channel with hw := cvorgUchan channel.hw cvorgDacCorr (val.setWidth 32) 0xffff }

def dacOffset (channel : CvorgContext) (offset : ℤ) : CvorgContext × Reply :=
  if ¬(-2 ^ 14 ≤ offset ∧ offset ≤ 2 ^ 14 - 1) then (channel, .error (.ioctl .einval))
  else
    let regval := (BitVec.ofInt 32 offset &&& 0x7fff) <<< 16
    ({ channel with hw := cvorgUchan channel.hw cvorgDacCorr regval (0x7fff <<< 16) }, .ok ())

/-- `gs_pll_ioctl` with `set`. -/
def gsPll (hw : CvorgHw) (busy : Bool) (pll : Ad9516Pll) (settles : Bool) : CvorgHw × Reply :=
  if busy then (hw, .error (.ioctl .ebusy))
  else if clkgenCheckPll pll ≠ 0 then (hw, .error (.ioctl .einval))
  else
    let (chip, pll, ret) := clkgenApplyPllConf hw.chip pll
    ({ hw with pll := pll, chip := chip },
      if ret ≠ 0 then .error (.ioctl .eagain) else if settles then .ok () else .error .etime)

/-- An `ioctl` of the channel among the others. -/
def onChannel (cvorg : CvorgModule) (nr : Fin 2) (result : CvorgContext × Reply) : CvorgModule × Reply :=
  ({ cvorg with hw.channels := Function.update cvorg.hw.channels nr result.1 }, result.2)

def Reply.ofIoctl {α : Type} (result : Except IoctlErrno α) : Reply :=
  match result with
  | .ok _ => .ok ()
  | .error errno => .error (.ioctl errno)

/-- The cases of `SkelUserIoctls` that act on a module, for the client with the file `file` and the channel `nr`. -/
def cvorgHandler (w : ℕ) (e : CvorgEndian) (cvorg : CvorgModule) (file : ℕ) (nr : Fin 2) :
    CvorgIoctl → CvorgModule × Reply
  | .sOutOffset offset =>
    let (channel, reply) := gsOutoff (cvorg.hw.channels nr) offset
    onChannel cvorg nr (channel, Reply.ofIoctl reply)
  | .sInPolarity busy polarity =>
    let (channel, reply) := gsInpol (cvorg.hw.channels nr) busy polarity
    onChannel cvorg nr (channel, Reply.ofIoctl reply)
  | .sPll busy pll settles =>
    let (hw, reply) := gsPll cvorg.hw busy pll settles
    ({ cvorg with hw := hw }, reply)
  | .gSram sramBusy address => onChannel cvorg nr (gsSram e (cvorg.hw.channels nr) false sramBusy address none)
  | .sSram busy sramBusy address data0 data1 =>
    onChannel cvorg nr (gsSram e (cvorg.hw.channels nr) busy sramBusy address (some (data0, data1)))
  | .sTrigger trig => onChannel cvorg nr (sTrigIoctl (cvorg.hw.channels nr) trig)
  | .sLoadseq io seq =>
    let (channel, reply) := cvorgLoadseq w e io (cvorg.hw.channels nr) seq
    onChannel cvorg nr (channel, Reply.ofIoctl reply)
  | .tUnlockForce | .tUnlock => ({ cvorg with owner := none }, .ok ())
  | .tLock => ({ cvorg with owner := some file }, .ok ())
  | .sMode mode => onChannel cvorg nr (gsMode (cvorg.hw.channels nr) mode)
  | .sOutGain busy gain =>
    let (channel, reply) := gsOutgain (cvorg.hw.channels nr) busy gain
    onChannel cvorg nr (channel, Reply.ofIoctl reply)
  | .gAdcRead busy adcChannel range upToDate =>
    onChannel cvorg nr (cvorgAdcReadIoctl (cvorg.hw.channels nr) busy adcChannel range upToDate)
  | .sDacVal val => onChannel cvorg nr (dacVal (cvorg.hw.channels nr) val, .ok ())
  | .sDacGain val => onChannel cvorg nr (dacGain (cvorg.hw.channels nr) val, .ok ())
  | .sDacOffset offset => onChannel cvorg nr (dacOffset (cvorg.hw.channels nr) offset)
  | .sOutEnable enable => onChannel cvorg nr (cvorgOutEnable (cvorg.hw.channels nr) enable, .ok ())
  | .unknown _ => (cvorg, .error .enotty)
  -- the others read the module, or change the client only
  | _ => (cvorg, .ok ())

/-- `SkelUserIoctls`, where the wait for the module's lock may be interrupted. -/
def skelUserIoctls (w : ℕ) (e : CvorgEndian) (interrupted : Bool) (cvorg : CvorgModule) (file : ℕ) (nr : Fin 2)
    (cm : CvorgIoctl) : CvorgModule × Reply :=
  if decide (cm.nr > cvorgIoctlNoLocking) && interrupted then (cvorg, .error .eintr)
  else if decide (cm.nr > cvorgIoctlLocking) && cvorgCheckPerm cvorg file then (cvorg, .error .eacces)
  else cvorgHandler w e cvorg file nr cm

/-! ## Raw accesses -/

/-- `SkelDrvrRawIoBlock`. `window` is the WindowSize of the address space that its number and width designate, if there
is one, and `data` is what a write leaves in the register. -/
structure RawIoBlock where
  window : Option ℕ
  offset : ℕ
  dataWidth : ℕ
  data : U32
  busError : Bool

/-- `SkelDrvrRawIoTransferBlock` with the bytes of one item and the items that are transferred. -/
structure RawIoTransfer where
  window : Option ℕ
  offset : ℕ
  itemSize : ℕ
  addrIncr : ℕ
  items : List U32
  memory : Bool

/-- The register at a byte address of the module. -/
def registerAt (address : ℤ) : Option (Fin 2 × ℕ) :=
  if address < 0 then none
  else if address < 0x200 then some (⟨0, Nat.zero_lt_two⟩, address.toNat / 4 * 4)
  else if address < 0x400 then some (⟨1, Nat.one_lt_two⟩, (address.toNat - 0x200) / 4 * 4)
  else none

def cvorgIntsr : ℕ := 0x000

/-- A read clears the interrupt source and moves the pointer of the SRAM. -/
def readRegister (channel : CvorgChannel) (offset : ℕ) : CvorgChannel :=
  if offset = cvorgIntsr then cvorgWchan channel cvorgIntsr 0
  else if offset = cvorgSramData then { channel with sramAddr := channel.sramAddr + 1 }
  else channel

/-- One access of the bus, a write of `data` or a read. -/
def busAccess (hw : CvorgHw) (address : ℤ) (data : Option U32) : CvorgHw :=
  match registerAt address with
  | none => hw
  | some (nr, offset) =>
    let channel := hw.channels nr
    let registers := match data with
      | some value => cvorgWchan channel.hw offset value
      | none => readRegister channel.hw offset
    { hw with channels := Function.update hw.channels nr { channel with hw := registers } }

/-- `RawIo` with `flag` for a write. -/
def rawIo (hw : CvorgHw) (riob : RawIoBlock) (flag : Bool) : CvorgHw × Reply :=
  match riob.window with
  | none => (hw, .error .enxio)
  | some window =>
    if window ≠ 0 ∧ riob.offset ≥ window then (hw, .error (.ioctl .einval))
    else if riob.busError then (hw, .error .enxio)
    else if riob.dataWidth = 8 ∨ riob.dataWidth = 16 ∨ riob.dataWidth = 32 then
      (busAccess hw riob.offset (if flag then some riob.data else none), .ok ())
    else (hw, .error (.ioctl .einval))

/-- The addresses that a transfer goes through, with a skip of 32 bits. A read of bytes stays at the first one. -/
def RawIoTransfer.address (riob : RawIoTransfer) (flag : Bool) (i : ℕ) : ℤ :=
  if !flag && decide (riob.itemSize ≠ 2) && decide (riob.itemSize ≠ 4) then riob.offset
  else riob.offset + (BitVec.ofNat 32 (i * (riob.addrIncr * riob.itemSize))).toInt

def rawIoBlock (hw : CvorgHw) (riob : RawIoTransfer) (flag : Bool) : CvorgHw × Reply :=
  match riob.window with
  | none => (hw, .error .enxio)
  | some window =>
    if window ≠ 0 ∧ riob.offset ≥ window then (hw, .error (.ioctl .einval))
    else if !riob.memory then (hw, .error (.ioctl .enomem))
    else
      (riob.items.zipIdx.foldl (fun hw item =>
        busAccess hw (riob.address flag item.2) (if flag then some item.1 else none)) hw, .ok ())

/-! ## Clients -/

/-- The ioctls of the skeleton that change neither a module nor a client's module: debug, version, timeout, queue,
module and client lists, connections, status, the JTAG's opening and bytes, and ENABLE, which the CVORG does not
implement. -/
inductive SkelQuiet where
  | setDebug | getDebug | getVersion | setTimeout | getTimeout | setQueueFlag | getQueueFlag | getQueueSize
  | getQueueOverflow | getModule | getModuleCount | getModuleMaps | connect | getClientList | getClientConnections
  | enable | getStatus | jtagOpen | jtagReadByte | jtagWriteByte

/-- The standard ioctls; `fpga` and `chip` are what a reset leaves behind. -/
inductive SkelIoctl where
  | quiet (cm : SkelQuiet) (reply : Reply)
  | setModule (modnr : ℤ)
  | reset (fpga : Fin 2 → CvorgChannel) (chip : Ad9516)
  | jtagClose (fpga : Fin 2 → CvorgChannel) (chip : Ad9516)
  | rawRead (riob : RawIoBlock)
  | rawWrite (riob : RawIoBlock)
  | rawBlockRead (riob : RawIoTransfer)
  | rawBlockWrite (riob : RawIoTransfer)

inductive ClientCall where
  | openFile
  | closeFile
  | skel (cm : SkelIoctl)
  | cvorg (interrupted : Bool) (cm : CvorgIoctl)

structure CvorgClient where
  moduleNumber : ℤ
  channelNr : Fin 2

/-- The installed modules and the open clients, by their files. -/
structure CvorgDriver (n : ℕ) where
  modules : Fin n → CvorgModule
  clients : ℕ → Option CvorgClient

section Calls
variable {n : ℕ} (number : Fin n → ℤ) (w : ℕ) (e : CvorgEndian)

/-- `get_mcon`: the first module with the number. -/
def getMcon (modnr : ℤ) : Option (Fin n) := (List.finRange n).find? fun i => decide (number i = modnr)

/-- `client_init` selects the first module. -/
def clientInit : CvorgClient := ⟨((List.finRange n).head?.map number).getD 0, ⟨0, Nat.zero_lt_two⟩⟩

def CvorgDriver.setHw (d : CvorgDriver n) (m : Fin n) (hw : CvorgHw) : CvorgDriver n :=
  { d with modules := Function.update d.modules m { d.modules m with hw := hw } }

/-- `SkelUserClientRelease`: the client owns no module any more. -/
def clientRelease (d : CvorgDriver n) (file : ℕ) : CvorgDriver n :=
  { d with
    modules := fun m => if (d.modules m).owner = some file then { d.modules m with owner := none } else d.modules m }

/-- The standard cases of `SkelDrvrIoctl` for a client whose module is `m`. -/
def skelIoctl (d : CvorgDriver n) (file : ℕ) (ccon : CvorgClient) (m : Fin n) : SkelIoctl → CvorgDriver n × Reply
  | .quiet _ reply => (d, reply)
  | .setModule modnr =>
    match getMcon number modnr with
    | none => (d, .error .enodev)
    | some _ => ({ d with clients := Function.update d.clients file (some { ccon with moduleNumber := modnr }) },
      .ok ())
  | .reset fpga chip | .jtagClose fpga chip => (d.setHw m (cvorgReset fpga chip), .ok ())
  | .rawRead riob =>
    let (hw, reply) := rawIo (d.modules m).hw riob false
    (d.setHw m hw, reply)
  | .rawWrite riob =>
    let (hw, reply) := rawIo (d.modules m).hw riob true
    (d.setHw m hw, reply)
  | .rawBlockRead riob =>
    let (hw, reply) := rawIoBlock (d.modules m).hw riob false
    (d.setHw m hw, reply)
  | .rawBlockWrite riob =>
    let (hw, reply) := rawIoBlock (d.modules m).hw riob true
    (d.setHw m hw, reply)

/-- `gs_channel_ioctl` with `set`. -/
def selectChannel (d : CvorgDriver n) (file : ℕ) (ccon : CvorgClient) (nr : ℤ) : CvorgDriver n × Reply :=
  if nr = 1 then
    ({ d with clients := Function.update d.clients file (some { ccon with channelNr := ⟨0, Nat.zero_lt_two⟩ }) },
      .ok ())
  else if nr = 2 then
    ({ d with clients := Function.update d.clients file (some { ccon with channelNr := ⟨1, Nat.one_lt_two⟩ }) }, .ok ())
  else (d, .error (.ioctl .einval))

/-- The default case of `SkelDrvrIoctl`. SCHANNEL takes the lock as the others do, but needs no owner. -/
def userIoctl (d : CvorgDriver n) (file : ℕ) (ccon : CvorgClient) (m : Fin n) (interrupted : Bool) (cm : CvorgIoctl) :
    CvorgDriver n × Reply :=
  let (cvorg, reply) := skelUserIoctls w e interrupted (d.modules m) file ccon.channelNr cm
  let d := { d with modules := Function.update d.modules m cvorg }
  match cm, reply with
  | .sChannel nr, .ok _ => selectChannel d file ccon nr
  | _, reply => (d, reply)

/-- A call of the client with the file `file`. An open file is not opened again. -/
def clientCall (d : CvorgDriver n) (file : ℕ) : ClientCall → Option (CvorgDriver n × Reply)
  | .openFile =>
    match d.clients file with
    | some _ => none
    | none => some ({ d with clients := Function.update d.clients file (some (clientInit number)) }, .ok ())
  | .closeFile =>
    match d.clients file with
    | none => some (d, .error .ebadf)
    | some _ => some ({ clientRelease d file with clients := Function.update d.clients file none }, .ok ())
  | .skel cm =>
    match d.clients file with
    | none => some (d, .error .ebadf)
    | some ccon =>
      match getMcon number ccon.moduleNumber with
      | none => some (d, .error (.ioctl .einval))
      | some m => some (skelIoctl number d file ccon m cm)
  | .cvorg interrupted cm =>
    match d.clients file with
    | none => some (d, .error .ebadf)
    | some ccon =>
      match getMcon number ccon.moduleNumber with
      | none => some (d, .error (.ioctl .einval))
      | some m => some (userIoctl w e d file ccon m interrupted cm)

end Calls

/-- The driver when its modules are installed. -/
def cvorgInstall {n : ℕ} (fpga : Fin n → Fin 2 → CvorgChannel) (chip : Fin n → Ad9516) : CvorgDriver n :=
  { modules := fun m => ⟨none, cvorgReset (fpga m) (chip m)⟩, clients := fun _ => none }

end HtDrivers.Cvorg
