import CaribeOS.Foundation.Runs
import Mathlib.Data.UInt

/-!
# Block reads over legacy virtio

`virtio_blk_read_blocks` (`virtio_blk_legacy.c`) and the device that serves it, as one transition
system. The driver publishes a chain of three descriptors, all calls using the same header, the
same descriptors and the same status byte, and spins until `used.idx` has advanced by one from the
value it had when the call began. The device completes published requests in order, each once, at
any time: it writes the data and the status byte of the request, and then advances `used.idx`.

A request whose call gave up stays in flight. If it completes during a later call, that call sees
`used.idx` advance and takes the completion for its own. This is the only way in which a call can
return `0` too early: if every call begins with nothing in flight, `0` means that the call's own
request was served.
-/

namespace CaribeOS

open Runs

/-! ## The driver and the device -/

/-- What a descriptor points to: one of the two globals of the driver, or the caller's buffer. -/
inductive DmaAddr
  | gHdr
  | gStatus
  | buffer (addr : UInt32)
deriving DecidableEq

/-- `struct virtq_desc`. -/
structure VirtqDesc where
  addr : DmaAddr
  len : UInt32
  flags : UInt16
  next : UInt16

/-- `struct virtio_blk_req`. -/
structure VirtioBlkReq where
  type : UInt32
  ioprio : UInt32
  sector : UInt64

def virtqDescFNext : UInt16 := 1

def virtqDescFWrite : UInt16 := 2

def virtioBlkTIn : UInt32 := 0

def qnum : UInt16 := 8

def maxSpins : ℕ := 100000000

/-- The arguments of `virtio_blk_read_blocks`. -/
structure BlkCall where
  lba : UInt64
  count : UInt32
  buf : UInt32

/-- A request as the device has fetched it. The serial number is that of the call. -/
structure BlkRequest where
  serial : ℕ
  sector : UInt64
  addr : UInt32
  len : UInt32

/-- Where `virtio_blk_read_blocks` stands, with its locals. -/
inductive DriverPc
  | idle
  | setHeader
  | clearIsr
  | readUsed
  | setDescriptors (want : UInt16)
  | publish (want : UInt16)
  | spin (want : UInt16) (spins : ℕ)
  | checkUsed (want : UInt16)
  | clearIsrAgain
  | checkStatus
deriving DecidableEq

/-- A call that has returned: its arguments, its serial number and the result. -/
structure BlkReturn where
  call : BlkCall
  serial : ℕ
  result : ℤ

/-- Driver, device and the memory they share. -/
structure VirtioState where
  desc : UInt16 → VirtqDesc
  availIdx : UInt16
  availRing : UInt16 → UInt16
  usedIdx : UInt16
  hdr : VirtioBlkReq
  status : UInt8
  isr : UInt32
  mem : ℕ → UInt8
  pc : DriverPc
  call : BlkCall
  /-- The requests that the device has fetched and not completed. -/
  inFlight : List BlkRequest
  /-- The data and the status of the first of them are written, `used.idx` is not advanced yet. -/
  written : Bool
  /-- The serial numbers of the completed requests. -/
  completed : List ℕ
  /-- The number of calls that asked for at least one sector. -/
  calls : ℕ
  /-- Set by the step in which a call returns. -/
  returned : Option BlkReturn

namespace VirtioState

/-- The rings as `virtio_blk_init` leaves them. -/
def initial (mem : ℕ → UInt8) : VirtioState where
  desc := fun _ ↦ ⟨.buffer 0, 0, 0, 0⟩
  availIdx := 0
  availRing := fun _ ↦ 0
  usedIdx := 0
  hdr := ⟨0, 0, 0⟩
  status := 0
  isr := 0
  mem := mem
  pc := .idle
  call := ⟨0, 0, 0⟩
  inFlight := []
  written := false
  completed := []
  calls := 0
  returned := none

/-- The three descriptors of a call. -/
def setDescriptors (s : VirtioState) : VirtioState :=
  { s with desc := fun i ↦
      if i = 0 then ⟨.gHdr, 16, virtqDescFNext, 1⟩
      else if i = 1 then
        ⟨.buffer s.call.buf, s.call.count * 512, virtqDescFNext ||| virtqDescFWrite, 2⟩
      else if i = 2 then ⟨.gStatus, 1, virtqDescFWrite, 0⟩
      else s.desc i }

/-- The device follows the chain whose head stands in the available ring. -/
def fetch (s : VirtioState) : Option BlkRequest :=
  let d0 := s.desc (s.availRing (s.availIdx % qnum))
  let d1 := s.desc d0.next
  let d2 := s.desc d1.next
  match d0.addr, d1.addr, d2.addr with
  | .gHdr, .buffer a, .gStatus => some ⟨s.calls, s.hdr.sector, a, d1.len⟩
  | _, _, _ => none

/-- Put the head of the chain into the ring and advance `avail.idx`: from here on the request is the
device's. -/
def publish (s : VirtioState) : VirtioState :=
  let s' := { s with availRing := fun i ↦ if i = s.availIdx % qnum then 0 else s.availRing i }
  { s' with availIdx := s.availIdx + 1, inFlight := s.inFlight ++ s'.fetch.toList }

/-- The call returns. -/
def finish (s : VirtioState) (result : ℤ) : VirtioState :=
  { s with pc := .idle, returned := some ⟨s.call, s.calls, result⟩ }

/-- One step of `virtio_blk_read_blocks`. Each step reads or writes what it shares with the device
at one moment; `used.idx` is read anew in every round of the loop and once more after it. -/
def driverStep (s : VirtioState) : Option VirtioState :=
  let s := { s with returned := none }
  match s.pc with
  | .idle => none
  | .setHeader =>
    some { s with hdr := ⟨virtioBlkTIn, 0, s.call.lba⟩, status := 0xFF, pc := .clearIsr }
  | .clearIsr => some { s with isr := 0, pc := .readUsed }
  | .readUsed => some { s with pc := .setDescriptors (s.usedIdx + 1) }
  | .setDescriptors want => some { s.setDescriptors with pc := .publish want }
  | .publish want => some { s.publish with pc := .spin want 0 }
  | .spin want spins =>
    if s.usedIdx ≠ want ∧ spins < maxSpins then some { s with pc := .spin want (spins + 1) }
    else some { s with pc := .checkUsed want }
  | .checkUsed want => if s.usedIdx ≠ want then some (s.finish (-1))
    else some { s with pc := .clearIsrAgain }
  | .clearIsrAgain => some { s with isr := 0, pc := .checkStatus }
  | .checkStatus => if s.status ≠ 0 then some (s.finish (-1)) else some (s.finish 0)

/-- A call begins. With nothing to read it returns at once. -/
def begin (s : VirtioState) (c : BlkCall) : Option VirtioState :=
  if s.pc ≠ .idle then none
  else if c.count = 0 then some { s with returned := some ⟨c, s.calls, 0⟩ }
  else some { s with call := c, calls := s.calls + 1, pc := .setHeader, returned := none }

/-- The device writes the status of the first request in flight, and its data: the sectors when the
status is `0`, anything when the request failed. -/
def deviceWrite (disk : ℕ → UInt8) (s : VirtioState) (status : UInt8) (junk : ℕ → UInt8) :
    Option VirtioState :=
  match s.inFlight, s.written with
  | r :: _, false =>
    some { s with
      mem := fun x ↦ if r.addr.toNat ≤ x ∧ x < r.addr.toNat + r.len.toNat then
          if status = 0 then disk (512 * r.sector.toNat + (x - r.addr.toNat)) else junk x
        else s.mem x
      status := status
      written := true
      returned := none }
  | _, _ => none

/-- The device completes the first request in flight. -/
def deviceAdvance (s : VirtioState) : Option VirtioState :=
  match s.inFlight, s.written with
  | r :: rest, true =>
    some { s with
      usedIdx := s.usedIdx + 1
      isr := s.isr ||| 1
      inFlight := rest
      written := false
      completed := s.completed ++ [r.serial]
      returned := none }
  | _, _ => none

end VirtioState

/-- What can happen next. -/
inductive BlkAction
  | call (c : BlkCall)
  | driver
  | write (status : UInt8) (junk : ℕ → UInt8)
  | advance

/-- One step of the system, on a disk with the bytes `disk`. -/
def blkStep (disk : ℕ → UInt8) (s : VirtioState) : BlkAction → Option VirtioState
  | .call c => s.begin c
  | .driver => s.driverStep
  | .write status junk => s.deviceWrite disk status junk
  | .advance => s.deviceAdvance

/-! ## What is to be shown -/

/-- The buffer of a call holds the sectors `[lba, lba + count)`. -/
def HoldsSectors (disk mem : ℕ → UInt8) (c : BlkCall) : Prop :=
  ∀ k < 512 * c.count.toNat, mem (c.buf.toNat + k) = disk (512 * c.lba.toNat + k)

/-- If a call has just returned `0`, the device has completed the request of that very call, if it
made one, and the buffer holds the sectors. -/
def HonestReturn (disk : ℕ → UInt8) (s : VirtioState) : Prop :=
  ∀ r, s.returned = some r → r.result = 0 →
    (r.call.count ≠ 0 → r.serial ∈ s.completed) ∧ HoldsSectors disk s.mem r.call

/-- Calls begin with nothing in flight and with a size in bytes that a word can hold. -/
def OneAtATime (s : VirtioState) (a : BlkAction) : Prop :=
  ∀ c, a = .call c → s.inFlight = [] ∧ 512 * c.count.toNat < 4294967296

/-- The device answers before the spin limit: when the loop runs out, nothing is in flight. -/
def Timely (s : VirtioState) (a : BlkAction) : Prop :=
  a = .driver → ∀ want spins, s.pc = .spin want spins → maxSpins ≤ spins → s.inFlight = []

/-! ## One request at a time -/

variable {c : BlkCall} {disk junk : ℕ → UInt8} {s t : VirtioState} {status : UInt8}

namespace VirtioState

/-- The request that the current call makes. -/
def ownRequest (s : VirtioState) : BlkRequest :=
  ⟨s.calls, s.call.lba, s.call.buf, s.call.count * 512⟩

/-- The descriptors are those of the current call. -/
def Described (s : VirtioState) : Prop :=
  s.desc 0 = ⟨.gHdr, 16, virtqDescFNext, 1⟩ ∧
    s.desc 1 = ⟨.buffer s.call.buf, s.call.count * 512, virtqDescFNext ||| virtqDescFWrite, 2⟩ ∧
    s.desc 2 = ⟨.gStatus, 1, virtqDescFWrite, 0⟩

/-- The request of the current call is the only one in flight. -/
def Pending (disk : ℕ → UInt8) (s : VirtioState) : Prop :=
  s.inFlight = [s.ownRequest] ∧ (s.written = true → s.status = 0 → HoldsSectors disk s.mem s.call)

/-- The request of the current call is completed and nothing is in flight. -/
def Served (disk : ℕ → UInt8) (s : VirtioState) : Prop :=
  s.inFlight = [] ∧ s.calls ∈ s.completed ∧ (s.status = 0 → HoldsSectors disk s.mem s.call)

/-- What holds at each point of a call that began with nothing in flight. -/
def PhaseInv (disk : ℕ → UInt8) (s : VirtioState) : Prop :=
  match s.pc with
  | .idle => True
  | .setHeader => s.inFlight = []
  | .clearIsr | .readUsed => s.inFlight = [] ∧ s.hdr.sector = s.call.lba
  | .setDescriptors want => s.inFlight = [] ∧ s.hdr.sector = s.call.lba ∧ want = s.usedIdx + 1
  | .publish want =>
    s.inFlight = [] ∧ s.hdr.sector = s.call.lba ∧ want = s.usedIdx + 1 ∧ s.Described
  | .spin want _ | .checkUsed want =>
    s.Pending disk ∧ want = s.usedIdx + 1 ∨ s.Served disk ∧ want = s.usedIdx
  | .clearIsrAgain | .checkStatus => s.Served disk

/-- The call has published its request and has not yet seen it completed. -/
def Waiting (s : VirtioState) (want : UInt16) : Prop :=
  (∃ spins, s.pc = .spin want spins) ∨ s.pc = .checkUsed want

theorem phaseInv_of_idle (h : s.pc = .idle) : s.PhaseInv disk := by
  rw [PhaseInv, h]
  trivial

theorem Waiting.phaseInv_iff {want : UInt16} (h : s.Waiting want) : s.PhaseInv disk ↔
      s.Pending disk ∧ want = s.usedIdx + 1 ∨ s.Served disk ∧ want = s.usedIdx := by
  rcases h with ⟨spins, h⟩ | h <;> rw [PhaseInv, h]

/-- With a request in flight the driver is idle or waits for it. -/
theorem PhaseInv.idle_or_waiting (h : s.PhaseInv disk) (hne : s.inFlight ≠ []) :
    s.pc = .idle ∨ ∃ want, s.Waiting want ∧ s.Pending disk ∧ want = s.usedIdx + 1 := by
  have hwaiting : ∀ want, s.Waiting want →
      ∃ want, s.Waiting want ∧ s.Pending disk ∧ want = s.usedIdx + 1 := by
    intro want hw
    rcases hw.phaseInv_iff.mp h with ⟨hpending, hwant⟩ | ⟨hserved, -⟩
    · exact ⟨want, hw, hpending, hwant⟩
    · exact absurd hserved.1 hne
  cases hpc : s.pc with
  | idle => exact Or.inl rfl
  | spin want spins => exact Or.inr (hwaiting want (Or.inl ⟨spins, hpc⟩))
  | checkUsed want => exact Or.inr (hwaiting want (Or.inr hpc))
  | setHeader =>
    rw [PhaseInv, hpc] at h
    exact absurd h hne
  | _ =>
    rw [PhaseInv, hpc] at h
    exact absurd h.1 hne

/-- The invariant of runs in which calls begin with nothing in flight. -/
structure OwnInv (disk : ℕ → UInt8) (s : VirtioState) : Prop where
  written : s.inFlight = [] → s.written = false
  fits : s.pc ≠ .idle → 512 * s.call.count.toNat < 4294967296
  phase : s.PhaseInv disk
  honest : HonestReturn disk s

theorem Described.fetch_eq (h : s.Described) (hring : s.availRing (s.availIdx % qnum) = 0) :
    s.fetch = some ⟨s.calls, s.hdr.sector, s.call.buf, s.call.count * 512⟩ := by
  obtain ⟨h0, h1, h2⟩ := h
  simp only [fetch, hring, h0, h1, h2]

theorem Described.publish_inFlight (h : s.Described) :
    s.publish.inFlight = s.inFlight ++ [{ s.ownRequest with sector := s.hdr.sector }] := by
  have hfetch := Described.fetch_eq
    (s := { s with availRing := fun i ↦ if i = s.availIdx % qnum then 0 else s.availRing i })
    h (if_pos rfl)
  rw [publish]
  simp only [hfetch, Option.toList_some]
  rfl

theorem honestReturn_of_none (h : s.returned = none) : HonestReturn disk s := by
  intro r hr
  rw [h] at hr
  contradiction

theorem OwnInv.begin (h : s.OwnInv disk) (hok : s.inFlight = [] ∧ 512 * c.count.toNat < 4294967296)
    (hs : s.begin c = some t) : t.OwnInv disk := by
  rw [VirtioState.begin] at hs
  split at hs
  · contradiction
  · next hidle =>
    rw [not_not] at hidle
    split at hs
    · next hzero =>
      obtain rfl := Option.some.inj hs
      refine ⟨h.written, fun hpc ↦ absurd hidle hpc, ?_, ?_⟩
      · simp only [PhaseInv, hidle]
      · intro r hr _
        obtain rfl := Option.some.inj hr
        refine ⟨fun hne ↦ absurd hzero hne, fun k hk ↦ ?_⟩
        rw [hzero, UInt32.toNat_zero] at hk
        omega
    · obtain rfl := Option.some.inj hs
      exact ⟨h.written, fun _ ↦ hok.2, hok.1, honestReturn_of_none rfl⟩

/-- Writing the data of the current call's request fills its buffer with the sectors. -/
theorem holdsSectors_write {mem : ℕ → UInt8} (hfits : 512 * c.count.toNat < 4294967296)
    (hstatus : status = 0) :
    HoldsSectors disk
      (fun x ↦ if c.buf.toNat ≤ x ∧ x < c.buf.toNat + (c.count * 512).toNat then
          if status = 0 then disk (512 * c.lba.toNat + (x - c.buf.toNat)) else junk x
        else mem x) c := by
  intro k hk
  have hlen : (c.count * 512).toNat = 512 * c.count.toNat := by
    change c.count.toNat * 512 % 4294967296 = _
    omega
  dsimp only
  rw [if_pos ⟨by omega, by omega⟩, if_pos hstatus, Nat.add_sub_cancel_left]

theorem OwnInv.deviceWrite (h : s.OwnInv disk) (hs : s.deviceWrite disk status junk = some t) :
    t.OwnInv disk := by
  rw [VirtioState.deviceWrite] at hs
  split at hs
  · next r rest hflight hwritten =>
    obtain rfl := Option.some.inj hs
    refine ⟨fun hnil ↦ ?_, h.fits, ?_, honestReturn_of_none rfl⟩
    · exact absurd (hflight.symm.trans hnil) (List.cons_ne_nil _ _)
    · rcases h.phase.idle_or_waiting (by rw [hflight]; exact List.cons_ne_nil _ _) with
        hidle | ⟨want, hw, hpending, hwant⟩
      · exact phaseInv_of_idle hidle
      · obtain rfl : r = s.ownRequest := by
          have := hpending.1.symm.trans hflight
          exact (List.cons.inj this).1.symm
        refine Iff.mpr (Waiting.phaseInv_iff ?_) (Or.inl ⟨⟨hpending.1, fun _ hstatus ↦ ?_⟩, hwant⟩)
        · exact hw
        · refine holdsSectors_write (h.fits ?_) hstatus
          rcases hw with ⟨spins, hpc⟩ | hpc <;> rw [hpc] <;> exact DriverPc.noConfusion
  · contradiction

theorem OwnInv.deviceAdvance (h : s.OwnInv disk) (hs : s.deviceAdvance = some t) :
    t.OwnInv disk := by
  rw [VirtioState.deviceAdvance] at hs
  split at hs
  · next r rest hflight hwritten =>
    obtain rfl := Option.some.inj hs
    refine ⟨fun _ ↦ rfl, h.fits, ?_, honestReturn_of_none rfl⟩
    rcases h.phase.idle_or_waiting (by rw [hflight]; exact List.cons_ne_nil _ _) with
      hidle | ⟨want, hw, hpending, hwant⟩
    · exact phaseInv_of_idle hidle
    · obtain ⟨rfl, rfl⟩ : s.ownRequest = r ∧ [] = rest :=
        List.cons.inj (hpending.1.symm.trans hflight)
      refine Iff.mpr (Waiting.phaseInv_iff ?_) (Or.inr ⟨⟨rfl, ?_, ?_⟩, hwant⟩)
      · exact hw
      · exact List.mem_append_right _ (List.mem_singleton_self _)
      · exact hpending.2 hwritten
  · contradiction

theorem pc_ne_idle_of_driverStep (hs : s.driverStep = some t) : s.pc ≠ .idle := by
  intro hidle
  simp only [VirtioState.driverStep, hidle] at hs
  contradiction

theorem honestReturn_finish_neg (s : VirtioState) : HonestReturn disk (s.finish (-1)) := by
  intro r hr hzero
  obtain rfl := Option.some.inj hr
  contradiction

theorem Served.honestReturn_finish (h : s.Served disk) (hstatus : s.status = 0) :
    HonestReturn disk (s.finish 0) := by
  intro r hr _
  obtain rfl := Option.some.inj hr
  exact ⟨fun _ ↦ h.2.1, h.2.2 hstatus⟩

theorem OwnInv.driverStep (h : s.OwnInv disk) (hs : s.driverStep = some t) : t.OwnInv disk := by
  have hfits := h.fits (pc_ne_idle_of_driverStep hs)
  have hphase := h.phase
  simp only [VirtioState.driverStep] at hs
  cases hpc : s.pc with
  | idle =>
    rw [hpc] at hs
    contradiction
  | setHeader =>
    rw [PhaseInv, hpc] at hphase
    rw [hpc] at hs
    obtain rfl := Option.some.inj hs
    exact ⟨h.written, fun _ ↦ hfits, ⟨hphase, rfl⟩, honestReturn_of_none rfl⟩
  | clearIsr =>
    rw [PhaseInv, hpc] at hphase
    rw [hpc] at hs
    obtain rfl := Option.some.inj hs
    exact ⟨h.written, fun _ ↦ hfits, hphase, honestReturn_of_none rfl⟩
  | readUsed =>
    rw [PhaseInv, hpc] at hphase
    rw [hpc] at hs
    obtain rfl := Option.some.inj hs
    exact ⟨h.written, fun _ ↦ hfits, ⟨hphase.1, hphase.2, rfl⟩, honestReturn_of_none rfl⟩
  | setDescriptors want =>
    rw [PhaseInv, hpc] at hphase
    rw [hpc] at hs
    obtain rfl := Option.some.inj hs
    exact ⟨h.written, fun _ ↦ hfits, ⟨hphase.1, hphase.2.1, hphase.2.2, rfl, rfl, rfl⟩,
      honestReturn_of_none rfl⟩
  | publish want =>
    rw [PhaseInv, hpc] at hphase
    obtain ⟨hnil, hsector, hwant, hdesc⟩ := hphase
    rw [hpc] at hs
    obtain rfl := Option.some.inj hs
    -- the own request is now the only one in flight, and nothing of it is written
    have hflight : (publish { s with pc := .publish want, returned := none }).inFlight
        = [s.ownRequest] := by
      refine (Described.publish_inFlight ?_).trans ?_
      · exact hdesc
      · dsimp only
        rw [hnil, hsector, List.nil_append]
        rfl
    refine ⟨fun hempty ↦ ?_, fun _ ↦ hfits, Or.inl ⟨⟨hflight, fun hw ↦ ?_⟩, hwant⟩,
      honestReturn_of_none rfl⟩
    · exact absurd (hflight.symm.trans hempty) (List.cons_ne_nil _ _)
    · exact absurd ((h.written hnil).symm.trans hw) (by decide)
  | spin want spins =>
    have hwait := (Waiting.phaseInv_iff (Or.inl ⟨spins, hpc⟩)).mp hphase
    rw [hpc] at hs
    dsimp only at hs
    split at hs
    · obtain rfl := Option.some.inj hs
      exact ⟨h.written, fun _ ↦ hfits, hwait, honestReturn_of_none rfl⟩
    · obtain rfl := Option.some.inj hs
      exact ⟨h.written, fun _ ↦ hfits, hwait, honestReturn_of_none rfl⟩
  | checkUsed want =>
    have hwait := (Waiting.phaseInv_iff (Or.inr hpc)).mp hphase
    rw [hpc] at hs
    dsimp only at hs
    split at hs
    · obtain rfl := Option.some.inj hs
      exact ⟨h.written, fun hbusy ↦ absurd rfl hbusy, trivial, honestReturn_finish_neg _⟩
    · next heq =>
      rw [not_not] at heq
      obtain rfl := Option.some.inj hs
      refine ⟨h.written, fun _ ↦ hfits, ?_, honestReturn_of_none rfl⟩
      rcases hwait with ⟨-, hwant⟩ | ⟨hserved, -⟩
      · rw [heq] at hwant
        exact absurd hwant.symm (by grind)
      · exact hserved
  | clearIsrAgain =>
    rw [PhaseInv, hpc] at hphase
    rw [hpc] at hs
    obtain rfl := Option.some.inj hs
    exact ⟨h.written, fun _ ↦ hfits, hphase, honestReturn_of_none rfl⟩
  | checkStatus =>
    rw [PhaseInv, hpc] at hphase
    rw [hpc] at hs
    dsimp only at hs
    split at hs
    · obtain rfl := Option.some.inj hs
      exact ⟨h.written, fun hbusy ↦ absurd rfl hbusy, trivial, honestReturn_finish_neg _⟩
    · next hstatus =>
      rw [not_not] at hstatus
      obtain rfl := Option.some.inj hs
      have hserved : Served disk { s with pc := .checkStatus, returned := none } := hphase
      exact ⟨h.written, fun hbusy ↦ absurd rfl hbusy, trivial, hserved.honestReturn_finish hstatus⟩

theorem ownInv_initial (disk mem : ℕ → UInt8) : (initial mem).OwnInv disk :=
  ⟨fun _ ↦ rfl, fun hbusy ↦ absurd rfl hbusy, trivial, honestReturn_of_none rfl⟩

/-- Every step of a run in which calls begin with nothing in flight keeps the invariant. -/
theorem OwnInv.blkStep {a : BlkAction} (h : s.OwnInv disk) (hok : OneAtATime s a)
    (hs : blkStep disk s a = some t) : t.OwnInv disk := by
  cases a with
  | call c => exact h.begin (hok c rfl) hs
  | driver => exact h.driverStep hs
  | write status junk => exact h.deviceWrite hs
  | advance => exact h.deviceAdvance hs

/-! ## A device that answers in time -/

/-- What holds at each point of a call when the device answers before the spin limit. -/
def RingInv (s : VirtioState) : Prop :=
  match s.pc with
  | .idle | .clearIsrAgain | .checkStatus =>
    s.inFlight = [] ∧ s.availIdx = .ofNat s.calls ∧ s.usedIdx = .ofNat s.calls
  | .setHeader | .clearIsr | .readUsed =>
    s.inFlight = [] ∧ s.availIdx + 1 = .ofNat s.calls ∧ s.usedIdx + 1 = .ofNat s.calls
  | .setDescriptors want =>
    s.inFlight = [] ∧ s.availIdx + 1 = .ofNat s.calls ∧ s.usedIdx + 1 = .ofNat s.calls ∧
      want = .ofNat s.calls
  | .publish want =>
    s.inFlight = [] ∧ s.availIdx + 1 = .ofNat s.calls ∧ s.usedIdx + 1 = .ofNat s.calls ∧
      want = .ofNat s.calls ∧ s.Described
  | .spin want _ =>
    s.availIdx = .ofNat s.calls ∧ want = .ofNat s.calls ∧
      (s.inFlight.length = 1 ∧ s.usedIdx + 1 = .ofNat s.calls ∨
        s.inFlight = [] ∧ s.usedIdx = .ofNat s.calls)
  | .checkUsed want =>
    s.inFlight = [] ∧ s.availIdx = .ofNat s.calls ∧ s.usedIdx = .ofNat s.calls ∧
      want = .ofNat s.calls

/-- With a request in flight the driver is in its loop. -/
theorem RingInv.spin_of_inFlight (h : s.RingInv) (hne : s.inFlight ≠ []) :
    ∃ want spins, s.pc = .spin want spins ∧ s.availIdx = .ofNat s.calls ∧ want = .ofNat s.calls ∧
      s.inFlight.length = 1 ∧ s.usedIdx + 1 = .ofNat s.calls := by
  rw [RingInv] at h
  cases hpc : s.pc with
  | spin want spins =>
    rw [hpc] at h
    obtain ⟨havail, hwant, ⟨hlength, hused⟩ | ⟨hnil, -⟩⟩ := h
    · exact ⟨want, spins, rfl, havail, hwant, hlength, hused⟩
    · exact absurd hnil hne
  | _ =>
    rw [hpc] at h
    exact absurd h.1 hne

theorem RingInv.begin (h : s.RingInv) (hs : s.begin c = some t) : t.RingInv := by
  rw [VirtioState.begin] at hs
  split at hs
  · contradiction
  · next hidle =>
    rw [not_not] at hidle
    rw [RingInv, hidle] at h
    split at hs
    · obtain rfl := Option.some.inj hs
      simp only [hidle]
      exact h
    · obtain rfl := Option.some.inj hs
      have hnext : UInt16.ofNat (s.calls + 1) = .ofNat s.calls + 1 := UInt16.ofNat_add _ _
      refine ⟨h.1, ?_, ?_⟩
      · rw [hnext, h.2.1]
      · rw [hnext, h.2.2]

theorem RingInv.deviceWrite (h : s.RingInv) (hs : s.deviceWrite disk status junk = some t) :
    t.RingInv := by
  rw [VirtioState.deviceWrite] at hs
  split at hs
  · obtain rfl := Option.some.inj hs
    exact h
  · contradiction

theorem RingInv.deviceAdvance (h : s.RingInv) (hs : s.deviceAdvance = some t) : t.RingInv := by
  rw [VirtioState.deviceAdvance] at hs
  split at hs
  · next r rest hflight hwritten =>
    obtain rfl := Option.some.inj hs
    have hne : s.inFlight ≠ [] := by
      rw [hflight]
      exact List.cons_ne_nil _ _
    obtain ⟨want, spins, hpc, havail, hwant, hlength, hused⟩ := h.spin_of_inFlight hne
    have hrest : rest = [] := by
      rw [hflight, List.length_cons] at hlength
      exact List.eq_nil_of_length_eq_zero (by omega)
    simp only [hpc]
    exact ⟨havail, hwant, Or.inr ⟨hrest, hused⟩⟩
  · contradiction

theorem RingInv.driverStep (h : s.RingInv)
    (htimely : ∀ want spins, s.pc = .spin want spins → maxSpins ≤ spins → s.inFlight = [])
    (hs : s.driverStep = some t) : t.RingInv := by
  simp only [VirtioState.driverStep] at hs
  cases hpc : s.pc with
  | idle =>
    rw [hpc] at hs
    contradiction
  | setHeader =>
    rw [RingInv, hpc] at h
    rw [hpc] at hs
    obtain rfl := Option.some.inj hs
    exact h
  | clearIsr =>
    rw [RingInv, hpc] at h
    rw [hpc] at hs
    obtain rfl := Option.some.inj hs
    exact h
  | readUsed =>
    rw [RingInv, hpc] at h
    rw [hpc] at hs
    obtain rfl := Option.some.inj hs
    exact ⟨h.1, h.2.1, h.2.2, h.2.2⟩
  | setDescriptors want =>
    rw [RingInv, hpc] at h
    rw [hpc] at hs
    obtain rfl := Option.some.inj hs
    exact ⟨h.1, h.2.1, h.2.2.1, h.2.2.2, rfl, rfl, rfl⟩
  | publish want =>
    rw [RingInv, hpc] at h
    obtain ⟨hnil, havail, hused, hwant, hdesc⟩ := h
    rw [hpc] at hs
    obtain rfl := Option.some.inj hs
    refine ⟨havail, hwant, Or.inl ⟨?_, hused⟩⟩
    refine (congrArg List.length (Described.publish_inFlight ?_)).trans ?_
    · exact hdesc
    · dsimp only
      rw [hnil, List.nil_append, List.length_singleton]
  | spin want spins =>
    have hring := h
    rw [RingInv, hpc] at h
    rw [hpc] at hs
    dsimp only at hs
    split at hs
    · obtain rfl := Option.some.inj hs
      exact h
    · next hexit =>
      obtain rfl := Option.some.inj hs
      obtain ⟨havail, hwant, hstate⟩ := h
      -- the loop ends because the index was seen, or because the spins ran out
      have hnil : s.inFlight = [] := by
        by_contra hne
        obtain ⟨-, -, -, -, -, -, hused⟩ := hring.spin_of_inFlight hne
        rcases not_and_or.mp hexit with hseen | hspins
        · rw [not_not] at hseen
          exact absurd hused (by grind)
        · exact hne (htimely want spins hpc (not_lt.mp hspins))
      rcases hstate with ⟨hlength, -⟩ | ⟨-, hused⟩
      · rw [hnil] at hlength
        contradiction
      · exact ⟨hnil, havail, hused, hwant⟩
  | checkUsed want =>
    rw [RingInv, hpc] at h
    obtain ⟨hnil, havail, hused, hwant⟩ := h
    rw [hpc] at hs
    dsimp only at hs
    split at hs
    · obtain rfl := Option.some.inj hs
      exact ⟨hnil, havail, hused⟩
    · obtain rfl := Option.some.inj hs
      exact ⟨hnil, havail, hused⟩
  | clearIsrAgain =>
    rw [RingInv, hpc] at h
    rw [hpc] at hs
    obtain rfl := Option.some.inj hs
    exact h
  | checkStatus =>
    rw [RingInv, hpc] at h
    rw [hpc] at hs
    dsimp only at hs
    split at hs
    · obtain rfl := Option.some.inj hs
      exact h
    · obtain rfl := Option.some.inj hs
      exact h

theorem RingInv.blkStep {a : BlkAction} (h : s.RingInv) (hok : Timely s a)
    (hs : blkStep disk s a = some t) : t.RingInv := by
  cases a with
  | call c => exact h.begin hs
  | driver => exact h.driverStep (hok rfl) hs
  | write status junk => exact h.deviceWrite hs
  | advance => exact h.deviceAdvance hs

/-! ## Calls return -/

/-- The number of driver steps until the call returns, at most. -/
def remaining (s : VirtioState) : ℕ :=
  match s.pc with
  | .idle => 0
  | .checkStatus => 1
  | .clearIsrAgain => 2
  | .checkUsed _ => 3
  | .spin _ spins => 4 + (maxSpins - spins)
  | .publish _ => 5 + maxSpins
  | .setDescriptors _ => 6 + maxSpins
  | .readUsed => 7 + maxSpins
  | .clearIsr => 8 + maxSpins
  | .setHeader => 9 + maxSpins

theorem remaining_le (s : VirtioState) : s.remaining ≤ maxSpins + 9 := by
  rw [remaining]
  split <;> omega

theorem remaining_driverStep (hs : s.driverStep = some t) : t.remaining < s.remaining := by
  simp only [VirtioState.driverStep] at hs
  cases hpc : s.pc <;> rw [hpc] at hs <;> simp only [remaining, hpc]
  case idle => contradiction
  case spin want spins =>
    dsimp only at hs
    split at hs
    · next hround =>
      obtain rfl := Option.some.inj hs
      dsimp only
      omega
    · obtain rfl := Option.some.inj hs
      dsimp only
      omega
  case checkUsed want =>
    dsimp only at hs
    split at hs <;> obtain rfl := Option.some.inj hs
    · exact Nat.zero_lt_succ _
    · exact Nat.lt_succ_self 2
  case checkStatus =>
    dsimp only at hs
    split at hs <;> obtain rfl := Option.some.inj hs <;> exact Nat.zero_lt_one
  all_goals
    obtain rfl := Option.some.inj hs
    dsimp only
    omega

theorem remaining_deviceWrite (hs : s.deviceWrite disk status junk = some t) :
    t.remaining = s.remaining := by
  rw [VirtioState.deviceWrite] at hs
  split at hs
  · obtain rfl := Option.some.inj hs
    rfl
  · contradiction

theorem remaining_deviceAdvance (hs : s.deviceAdvance = some t) : t.remaining = s.remaining := by
  rw [VirtioState.deviceAdvance] at hs
  split at hs
  · obtain rfl := Option.some.inj hs
    rfl
  · contradiction

theorem isSome_driverStep (h : s.pc ≠ .idle) : s.driverStep.isSome = true := by
  simp only [VirtioState.driverStep]
  cases hpc : s.pc with
  | idle => exact absurd hpc h
  | spin want spins =>
    dsimp only
    split <;> rfl
  | checkUsed want =>
    dsimp only
    split <;> rfl
  | checkStatus =>
    dsimp only
    split <;> rfl
  | _ => rfl

end VirtioState

namespace BlkAction

/-- The action belongs to the call in progress or to the device. -/
def withinCall : BlkAction → Bool
  | .call _ => false
  | _ => true

def isDriver : BlkAction → Bool
  | .driver => true
  | _ => false

end BlkAction

/-- A call in progress returns: the driver can always take its next step, and it takes at most
`maxSpins + 9` of them, whatever the device does in between. -/
def CallsReturn (disk : ℕ → UInt8) : Prop :=
  (∀ s : VirtioState, s.pc ≠ .idle → (blkStep disk s .driver).isSome = true) ∧
    ∀ (s t : VirtioState) (as : List BlkAction), (∀ a ∈ as, a.withinCall = true) →
      run (blkStep disk) s as = some t → as.countP BlkAction.isDriver ≤ maxSpins + 9

theorem callsReturn (disk : ℕ → UInt8) : CallsReturn disk := by
  refine ⟨fun s h ↦ VirtioState.isSome_driverStep h, fun s t as hwithin hrun ↦ ?_⟩
  have hcount : as.countP BlkAction.isDriver + t.remaining ≤ s.remaining := by
    refine countP_le_of_run (fun {s t a} _ hdriver hs ↦ ?_) (fun {s t a} hcall hs ↦ ?_) hwithin hrun
    · cases a with
      | driver => exact VirtioState.remaining_driverStep hs
      | _ => contradiction
    · cases a with
      | call c => contradiction
      | driver => exact (VirtioState.remaining_driverStep hs).le
      | write status junk => exact (VirtioState.remaining_deviceWrite hs).le
      | advance => exact (VirtioState.remaining_deviceAdvance hs).le
  have := s.remaining_le
  omega

/-- **Block reads and completions.** In a run whose calls all begin with nothing in flight, a call
that returns `0` has had its own request served. With a device that answers before the spin limit
both indices equal the number of calls, modulo `2 ^ 16`, whenever no call is in progress. Every call
returns. -/
theorem blockReads_own_completion (disk mem : ℕ → UInt8) :
    (∀ s, Reachable (blkStep disk) OneAtATime (.initial mem) s → HonestReturn disk s) ∧
      (∀ s, Reachable (blkStep disk) Timely (.initial mem) s → s.pc = .idle →
        s.availIdx = .ofNat s.calls ∧ s.usedIdx = .ofNat s.calls) ∧
      CallsReturn disk := by
  refine ⟨fun s hs ↦ ?_, fun s hs hidle ↦ ?_, callsReturn disk⟩
  · have hinv : s.OwnInv disk := hs.invariant _ (VirtioState.ownInv_initial disk mem)
      fun hinv hok hstep ↦ hinv.blkStep hok hstep
    exact hinv.honest
  · have hinv : s.RingInv := hs.invariant _ ⟨rfl, rfl, rfl⟩
      fun hinv hok hstep ↦ hinv.blkStep hok hstep
    rw [VirtioState.RingInv, hidle] at hinv
    exact hinv.2

instance (s : VirtioState) (a : BlkAction) : Decidable (OneAtATime s a) :=
  match a with
  | .call c => decidable_of_iff (s.inFlight = [] ∧ 512 * c.count.toNat < 4294967296)
      ⟨fun h _ hc ↦ BlkAction.call.inj hc ▸ h, fun h ↦ h c rfl⟩
  | .driver | .write _ _ | .advance => .isTrue nofun

instance (s : VirtioState) (a : BlkAction) : Decidable (Timely s a) :=
  match a, hpc : s.pc with
  | .driver, .spin want spins => decidable_of_iff (maxSpins ≤ spins → s.inFlight = [])
      ⟨fun h _ _ _ hspin ↦ by rw [hpc] at hspin; cases hspin; exact h, fun h ↦ h rfl want spins hpc⟩
  | .driver, .idle | .driver, .setHeader | .driver, .clearIsr | .driver, .readUsed
  | .driver, .setDescriptors _ | .driver, .publish _ | .driver, .checkUsed _
  | .driver, .clearIsrAgain | .driver, .checkStatus =>
    .isTrue fun _ _ _ hspin ↦ by rw [hpc] at hspin; cases hspin
  | .call _, _ | .write _ _, _ | .advance, _ => .isTrue nofun

/-- A disk on which every byte tells its sector. -/
def numberedDisk (x : ℕ) : UInt8 := .ofNat (x / 512)

/-- A read of sector `1`, up to the loop. -/
def readOne : List BlkAction := [.call ⟨1, 1, 0x1000⟩, .driver, .driver, .driver, .driver, .driver]

/-- The device serves the request of that read in the second round of the loop. -/
def servedRead : List BlkAction :=
  readOne ++ [.driver, .write 0 fun _ ↦ 0, .advance, .driver, .driver, .driver, .driver]

/-- The read that is served in time returns `0`. -/
theorem blockReads_own_completion_served :
    ∃ s, run (blkStep numberedDisk) (.initial fun _ ↦ 0) servedRead = some s ∧
      s.returned = some ⟨⟨1, 1, 0x1000⟩, 1, 0⟩ ∧ s.mem 0x1000 = 1 ∧ HonestReturn numberedDisk s ∧
      s.availIdx = 1 ∧ s.usedIdx = 1 := by
  obtain ⟨hhonest, hindices, -⟩ := blockReads_own_completion numberedDisk (fun _ ↦ 0)
  obtain ⟨s, hrun, hone, htimely, hidle, hcalls, hreturned, hmem⟩ :
      ∃ s, run (blkStep numberedDisk) (.initial fun _ ↦ 0) servedRead = some s ∧
        runWhile (blkStep numberedDisk) OneAtATime (.initial fun _ ↦ 0) servedRead = some s ∧
        runWhile (blkStep numberedDisk) Timely (.initial fun _ ↦ 0) servedRead = some s ∧
        s.pc = .idle ∧ s.calls = 1 ∧ s.returned = some ⟨⟨1, 1, 0x1000⟩, 1, 0⟩ ∧
          s.mem 0x1000 = 1 :=
    ⟨_, rfl, rfl, rfl, rfl, rfl, rfl, rfl⟩
  have hindex := hindices s (Reachable.start.of_runWhile htimely) hidle
  rw [hcalls] at hindex
  exact ⟨s, hrun, hreturned, hmem, hhonest s (Reachable.start.of_runWhile hone), hindex⟩

/-! ## A completion taken for another's -/

/-- In the loop, with the index not yet reached, the driver only counts. -/
theorem run_spin (disk : ℕ → UInt8) {want : UInt16} (n : ℕ) {spins : ℕ}
    (hpc : s.pc = .spin want spins) (hused : s.usedIdx ≠ want) (hspins : spins + n ≤ maxSpins)
    (hret : s.returned = none) :
    run (blkStep disk) s (List.replicate n .driver)
      = some { s with pc := .spin want (spins + n) } := by
  induction n generalizing s spins with
  | zero =>
    rw [List.replicate_zero, run, Nat.add_zero, ← hpc]
  | succ n ih =>
    have hstep : blkStep disk s .driver = some { s with pc := .spin want (spins + 1) } := by
      rw [blkStep, VirtioState.driverStep]
      simp only [hpc]
      rw [if_pos ⟨hused, by omega⟩, hret]
    rw [List.replicate_succ, run, hstep, Option.bind_some,
      ih (s := { s with pc := .spin want (spins + 1) }) rfl hused (by omega) hret]
    simp only [Nat.add_assoc, Nat.add_comm 1 n]

/-- The end of that read, and then a read of sector `2` during which the device completes one
request. -/
def readTwo : List BlkAction :=
  [.driver, .driver, .call ⟨2, 1, 0x2000⟩, .driver, .driver, .driver, .driver, .driver,
    .write 0 fun _ ↦ 0, .advance, .driver, .driver, .driver, .driver]

/-- The first read runs out of spins before the device completes its request. -/
def abandonedRead : List BlkAction := readOne ++ List.replicate maxSpins BlkAction.driver ++ readTwo

/-- The second call returns `0` while its request is still in flight. -/
theorem blockReads_accepts_abandoned :
    ∃ s, run (blkStep numberedDisk) (.initial fun _ ↦ 0) abandonedRead = some s ∧
      ¬HonestReturn numberedDisk s := by
  -- up to the loop, and from its end, the run is evaluated; the loop is `run_spin`
  obtain ⟨s, hs, hpc, hused, hret, t, ht, htret, hcompleted⟩ :
      ∃ s, run (blkStep numberedDisk) (.initial fun _ ↦ 0) readOne = some s ∧
        s.pc = .spin 1 0 ∧ s.usedIdx ≠ 1 ∧ s.returned = none ∧
        ∃ t, run (blkStep numberedDisk) { s with pc := .spin 1 (0 + maxSpins) } readTwo = some t ∧
          t.returned = some ⟨⟨2, 1, 0x2000⟩, 2, 0⟩ ∧ t.completed = [1] :=
    ⟨_, rfl, rfl, by decide, rfl, _, rfl, rfl, rfl⟩
  have hspin := run_spin numberedDisk maxSpins hpc hused (by rw [Nat.zero_add]) hret
  refine ⟨t, run_append_of_eq _ (run_append_of_eq _ hs hspin) ht, fun hhonest ↦ ?_⟩
  have hserved := (hhonest _ htret rfl).1 (by decide)
  rw [hcompleted] at hserved
  exact absurd hserved (by decide)

end CaribeOS
