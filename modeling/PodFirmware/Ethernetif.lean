import Mathlib.Data.Nat.Bitwise
import PodFirmware.CommandTable
import PodFirmware.Lib.Machine

/-!
# PodFirmware.Ethernetif

The network interface: how it is set up at boot, and how the main loop follows the link. Without a
link at boot `HAL_ETH_Init` times out and `low_level_init` returns at once, and nothing calls it
again; but when the link comes up later, the main loop takes the interface for a working one.

* `lowLevelInit`, `netifConfig`: what is done at boot.
* `lwipLoopHandler`: one call in the main loop.
* `Initialised`: `low_level_init` has run to its end.
* `frameIo_iff`: the boots and runs in which no frame is handled before that.
-/

namespace PodFirmware
namespace Ethernetif

/-- `struct netif`, as far as the driver sets it, with the flags that are used. -/
structure Netif where
  up : Bool := false
  linkUp : Bool := false
  broadcast : Bool := false
  etharp : Bool := false
  hwaddrLen : UInt8 := 0
  hwaddr : Vector UInt8 6 := Vector.replicate 6 0
  mtu : UInt16 := 0
  deriving DecidableEq, Repr

/-- The interface, the link status that the loop compares, and the calls of the HAL that have been
made: the lists of descriptors, and `HAL_ETH_Start`. -/
structure Ethernet where
  gnetif : Netif := {}
  currLinkStatus : UInt32 := 0
  prevLinkStatus : UInt32 := 0
  txDescList : Bool := false
  rxDescList : Bool := false
  started : Bool := false
  deriving DecidableEq, Repr

def phyLinkedStatus : UInt32 := 0x0004

/-- The hardware address, from the word at `UID_BASE`. -/
def macAddr (word0 : UInt32) : Vector UInt8 6 :=
  #v[0x00, 0x80, 0xE1, ((word0 &&& 0x00ff0000) >>> 16).toUInt8,
    ((word0 &&& 0x0000ff00) >>> 8).toUInt8, (word0 &&& 0x000000ff).toUInt8]

/-- `status` is what `HAL_ETH_Init` returns. -/
def lowLevelInit (status : HalStatus) (word0 : UInt32) (e : Ethernet) : Ethernet :=
  if status ≠ .ok then e
  else
    { gnetif := { e.gnetif with
        linkUp := true
        hwaddrLen := 6
        hwaddr := macAddr word0
        mtu := 1500
        broadcast := true
        etharp := true }
      currLinkStatus := phyLinkedStatus
      prevLinkStatus := phyLinkedStatus
      txDescList := true
      rxDescList := true
      started := true }

def setUp (e : Ethernet) (up : Bool) : Ethernet := { e with gnetif := { e.gnetif with up := up } }

def setLink (e : Ethernet) (up : Bool) : Ethernet :=
  { e with gnetif := { e.gnetif with linkUp := up } }

/-- `Netif_Config`, on the memory that is cleared at reset. -/
def netifConfig (status : HalStatus) (word0 : UInt32) : Ethernet :=
  let e := lowLevelInit status word0 {}
  setUp e e.gnetif.linkUp

/-- What one call in the main loop reads: `ticks`, and the register of the PHY. -/
structure LoopRead where
  tick : UInt32
  phyreg : UInt32
  deriving DecidableEq, Repr

def ethCheckLink (phyreg : UInt32) : UInt32 := phyreg &&& phyLinkedStatus

/-- The check that is due every five seconds. -/
def checkLink (e : Ethernet) (i : LoopRead) : Ethernet :=
  if i.tick % 5000 = 0 then
    let e := { e with currLinkStatus := ethCheckLink i.phyreg }
    let e :=
      if e.currLinkStatus ≠ e.prevLinkStatus then
        let up := e.currLinkStatus = phyLinkedStatus
        setUp (setLink e up) up
      else e
    { e with prevLinkStatus := e.currLinkStatus }
  else e

/-- Whether `ethernetif_input` is called, and what the loop leaves. -/
def lwipLoopHandler (e : Ethernet) (i : LoopRead) : Bool × Ethernet :=
  let e := checkLink e i
  (e.gnetif.linkUp, e)

def step (e : Ethernet) (i : LoopRead) : Ethernet := (lwipLoopHandler e i).2

/-! ## Frames -/

structure Initialised (word0 : UInt32) (e : Ethernet) : Prop where
  txDescList : e.txDescList = true
  rxDescList : e.rxDescList = true
  hwaddrLen : e.gnetif.hwaddrLen = 6
  hwaddr : e.gnetif.hwaddr = macAddr word0
  mtu : e.gnetif.mtu = 1500
  started : e.started = true

/-- A frame is taken from the driver, or could be given to it, only when it is ready for that. -/
def FrameIo (word0 : UInt32) (e : Ethernet) (i : LoopRead) : Prop :=
  (lwipLoopHandler e i).1 = true ∨ (step e i).gnetif.up = true → Initialised word0 (step e i)

/-- The check is due, and finds the link up. -/
def LinkSampled (i : LoopRead) : Prop :=
  i.tick % 5000 = 0 ∧ ethCheckLink i.phyreg = phyLinkedStatus

theorem ethCheckLink_cases (phyreg : UInt32) :
    ethCheckLink phyreg = 0 ∨ ethCheckLink phyreg = phyLinkedStatus := by
  have h : (ethCheckLink phyreg).toNat = (phyreg.toNat.testBit 2).toNat * 2 ^ 2 := by
    rw [← Nat.and_two_pow]
    rfl
  simp only [← UInt32.toNat_inj, h]
  cases phyreg.toNat.testBit 2 with
  | false => exact .inl rfl
  | true => exact .inr rfl

theorem Initialised.setUp {word0 : UInt32} {e : Ethernet} (h : Initialised word0 e) (up : Bool) :
    Initialised word0 (setUp e up) :=
  ⟨h.txDescList, h.rxDescList, h.hwaddrLen, h.hwaddr, h.mtu, h.started⟩

theorem Initialised.step {word0 : UInt32} {e : Ethernet} (h : Initialised word0 e) (i : LoopRead) :
    Initialised word0 (step e i) := by
  have hkeep : ∀ curr prev up link, Initialised word0 { Ethernetif.setUp (setLink e link) up with
      currLinkStatus := curr, prevLinkStatus := prev } := fun _ _ _ _ =>
    ⟨h.txDescList, h.rxDescList, h.hwaddrLen, h.hwaddr, h.mtu, h.started⟩
  unfold Ethernetif.step lwipLoopHandler checkLink
  dsimp only
  split
  · split
    · exact hkeep _ _ _ _
    · exact hkeep _ _ e.gnetif.up e.gnetif.linkUp
  · exact h

/-- An interface that `low_level_init` has not set up: only a link that comes up changes it. -/
theorem step_of_unset {i : LoopRead} (h : ¬LinkSampled i) : step {} i = {} := by
  unfold step lwipLoopHandler checkLink
  dsimp only
  split
  · next htick =>
    have hdown := (ethCheckLink_cases i.phyreg).resolve_right fun hup => h ⟨htick, hup⟩
    simp [hdown]
  · rfl

theorem not_frameIo {word0 : UInt32} {i : LoopRead} (h : LinkSampled i) :
    ¬FrameIo word0 {} i := by
  obtain ⟨htick, hup⟩ := h
  have hlink : (lwipLoopHandler {} i).1 = true := by
    simp [lwipLoopHandler, checkLink, htick, hup, phyLinkedStatus, setUp, setLink]
  intro hframe
  have := (hframe (.inl hlink)).started
  revert this
  simp [step, lwipLoopHandler, checkLink, htick, hup, phyLinkedStatus, setUp, setLink]

theorem frameIo_of_ok (word0 : UInt32) (is : List LoopRead) :
    Initialised word0 (netifConfig .ok word0) ∧
      Machine.Always step (FrameIo word0) (netifConfig .ok word0) is := by
  have hinit : Initialised word0 (netifConfig .ok word0) := ⟨rfl, rfl, rfl, rfl, rfl, rfl⟩
  refine ⟨hinit, Machine.always_of_inv (fun e i h => h.step i) ?_ hinit⟩
  intro e i h _
  exact h.step i

theorem frameIo_of_failed (word0 : UInt32) (is : List LoopRead) :
    Machine.Always step (FrameIo word0) {} is ↔ ∀ i ∈ is, ¬LinkSampled i := by
  have hstep : ∀ e i, e = ({} : Ethernet) → ¬LinkSampled i → step e i = {} := by
    rintro e i rfl h
    exact step_of_unset h
  have hframe : ∀ e i, e = ({} : Ethernet) → (FrameIo word0 e i ↔ ¬LinkSampled i) := by
    rintro e i rfl
    refine ⟨fun hframe hup => not_frameIo hup hframe, fun h => ?_⟩
    have hlink : (lwipLoopHandler {} i).1 = false := congrArg (·.gnetif.linkUp) (step_of_unset h)
    rw [FrameIo, step_of_unset h, hlink]
    rintro (hinput | hup)
    · cases hinput
    · cases hup
  exact (Machine.always_iff_of_kept hstep hframe rfl).trans Machine.always_inputs_iff

/-- At boot and in every call of the main loop, frames are handled only on an interface that has
been initialised, exactly when `HAL_ETH_Init` succeeds or the link is never found up later. -/
theorem frameIo_iff (status : HalStatus) (word0 : UInt32) (is : List LoopRead) :
    (((netifConfig status word0).gnetif.up = true → Initialised word0 (netifConfig status word0)) ∧
      Machine.Always step (FrameIo word0) (netifConfig status word0) is) ↔
    status = .ok ∨ ∀ i ∈ is, ¬LinkSampled i := by
  by_cases hstatus : status = .ok
  · subst hstatus
    obtain ⟨hinit, hrun⟩ := frameIo_of_ok word0 is
    exact iff_of_true ⟨fun _ => hinit, hrun⟩ (.inl rfl)
  · have hboot : netifConfig status word0 = {} := by
      rw [netifConfig, lowLevelInit, if_pos hstatus]
      rfl
    rw [hboot, frameIo_of_failed]
    simp [hstatus]

/-- The cable is plugged in after boot. -/
theorem late_link :
    let e := netifConfig .timeout 0
    lwipLoopHandler e ⟨10000, 0x7824⟩ = (true, setUp (setLink { e with
      currLinkStatus := phyLinkedStatus, prevLinkStatus := phyLinkedStatus } true) true) ∧
      e.txDescList = false ∧ e.started = false ∧
      ¬∀ status word0 is, Machine.Always step (FrameIo word0) (netifConfig status word0) is := by
  refine ⟨by decide, rfl, rfl, fun h => ?_⟩
  exact not_frameIo (i := ⟨10000, 0x7824⟩) ⟨by decide, by decide⟩ (h .timeout 0 [⟨10000, 0x7824⟩]).1

end Ethernetif
end PodFirmware
