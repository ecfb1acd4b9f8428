import PodFirmware.Intact
import PodFirmware.Lib.Machine

/-!
# PodFirmware.Sockets

Who can give the pod commands. `badgerloop_init` opens two blocks, one to SpaceX and one to the
dashboard, and only the latter has a callback, `udp_echo_recv`. Every datagram that is received may
change the order in which the blocks are looked at.

* `openSockets`: the blocks are opened.
* `Ready`: what holds then, and after any number of datagrams.
* `command_received_iff`: the callback gets the data of the dashboard's intact datagrams and nothing
  else.
-/

namespace PodFirmware

/-- `to_spacex` and `to_dashboard`. -/
def devIp : UInt32 := ip4Addr 192 168 0 112

def gnetif : Netif := ⟨ip4Addr 192 168 0 10, ip4Addr 255 255 255 0, true⟩

/-- `memp_init` and `udp_init`, with what `rand` returns. A place of the pool is called by its turn to
be taken. -/
def udpInit (pcb : Nat → UdpPcb) (rand : UInt32) : Udp :=
  ⟨pcb, [0, 1, 2, 3], [], ((rand &&& ~~~0xc000) + 0xc000).toUInt16⟩

/-- The blocks of `badgerloop_init`, for SpaceX and for the dashboard. -/
def openSockets (s : Udp) : Option (Nat × Nat × Udp) := do
  let (spacex, s) ← udpNew s
  let (dashboard, s) ← udpNew s
  let (err, s) := udpConnect s spacex devIp 3000
  guard (err = errOk)
  let (err, s) := udpConnect s dashboard devIp 3000
  guard (err = errOk)
  let (err, s) := udpBind s dashboard gnetif.ipAddr 3000
  guard (err = errOk)
  some (spacex, dashboard, udpRecv s dashboard)

/-- A datagram is received. -/
def receive (s : Udp) (d : IpPacket) : Udp := (udpInput s gnetif d).2

/-- The block to SpaceX. -/
def spacexPcb (port : UInt16) : UdpPcb :=
  { remoteIp := devIp, localPort := port, remotePort := 3000, connected := true }

/-- The block to the dashboard. -/
def dashboardPcb : UdpPcb := ⟨gnetif.ipAddr, devIp, 0, 3000, 3000, true, true⟩

structure Ready (s : Udp) (spacex dashboard : Nat) : Prop where
  ne : spacex ≠ dashboard
  perm : s.udpPcbs.Perm [dashboard, spacex]
  dashboard : s.pcb dashboard = dashboardPcb
  spacex : ∃ port, port ≠ 3000 ∧ s.pcb spacex = spacexPcb port

/-! ## The loop -/

section Loop

variable {s : Udp} {inp : Netif} {d : IpPacket} {before l : List Nat} {unconPcb : Option Nat}

theorem findPcb_perm (s : Udp) (inp : Netif) (d : IpPacket) (before : List Nat)
    (unconPcb : Option Nat) (l : List Nat) :
    (findPcb s inp d before unconPcb l).2.Perm (before ++ l) := by
  induction l generalizing before unconPcb with
  | nil => rw [findPcb, List.append_nil]
  | cons i rest ih =>
    have hnext : ∀ u, (findPcb s inp d (before ++ [i]) u rest).2.Perm (before ++ i :: rest) := by
      intro u
      have hperm := ih (before ++ [i]) u
      rwa [List.append_assoc, List.singleton_append] at hperm
    rw [findPcb]
    dsimp only
    split
    · split
      · exact List.perm_middle.symm
      · exact hnext _
    · exact hnext _

theorem findPcb_eq_or_mem {i : Nat} (h : (findPcb s inp d before unconPcb l).1 = some i) :
    unconPcb = some i ∨ i ∈ l := by
  induction l generalizing before unconPcb with
  | nil => exact .inl h
  | cons j rest ih =>
    rw [findPcb] at h
    dsimp only at h
    split at h
    · split at h
      · exact .inr (Option.some.inj h ▸ List.mem_cons_self)
      · rcases ih h with hu | hmem
        · split at hu
          · exact .inr (Option.some.inj hu ▸ List.mem_cons_self)
          · exact .inl hu
        · exact .inr (List.mem_cons_of_mem _ hmem)
    · exact (ih h).imp_right (List.mem_cons_of_mem _)

theorem mem_of_findPcb {i : Nat} (h : (findPcb s inp d before none l).1 = some i) : i ∈ l :=
  (findPcb_eq_or_mem h).resolve_left nofun

/-- Where all blocks are connected, the one that is found is connected to the sender. -/
theorem findPcb_connected (hl : ∀ i ∈ l, (s.pcb i).connected = true) (before : List Nat) :
    (findPcb s inp d before none l).1 =
      l.find? fun i => d.isFor inp (s.pcb i) && d.isFrom (s.pcb i) := by
  induction l generalizing before with
  | nil => rfl
  | cons i rest ih =>
    have hi := hl i List.mem_cons_self
    have hrest := ih fun i hi => hl i (List.mem_cons_of_mem _ hi)
    rw [findPcb, List.find?_cons]
    dsimp only
    cases hfor : d.isFor inp (s.pcb i) with
    | false => simpa using hrest (before ++ [i])
    | true =>
      cases hfrom : d.isFrom (s.pcb i) with
      | false => simpa [hi] using hrest (before ++ [i])
      | true => simp

end Loop

/-- Of the state only the order of the blocks changes. -/
theorem udpInput_snd (s : Udp) (inp : Netif) (d : IpPacket) :
    ∃ pcbs, pcbs.Perm s.udpPcbs ∧ (udpInput s inp d).2 = { s with udpPcbs := pcbs } := by
  have hperm := findPcb_perm s inp d [] none s.udpPcbs
  rw [List.nil_append] at hperm
  rw [udpInput]
  split
  · exact ⟨s.udpPcbs, .refl _, rfl⟩
  · refine ⟨_, hperm, ?_⟩
    dsimp only
    split
    · split
      · rfl
      · split
        · split <;> rfl
        · split <;> rfl
    · rfl

/-! ## The blocks are opened -/

section Open

theorem nextPort_ne (port : UInt16) : nextPort port ≠ port := by
  rw [nextPort]
  split
  · next h => exact h ▸ by decide
  · intro h
    have hval := congrArg UInt16.toNat h
    have hlt := port.toNat_lt
    have hone : UInt16.toNat 1 = 1 := rfl
    rw [UInt16.toNat_add, hone] at hval
    omega

theorem le_nextPort {port : UInt16} (h : 0xc000 ≤ port.toNat) : 0xc000 ≤ (nextPort port).toNat := by
  rw [nextPort]
  split
  · decide
  · next hne =>
    have hne' : port.toNat ≠ 65535 := fun h => hne (UInt16.toNat_inj.mp h)
    have hlt := port.toNat_lt
    have hone : UInt16.toNat 1 = 1 := rfl
    rw [UInt16.toNat_add, hone]
    omega

theorem udpNewPort_of_free {s : Udp} {port : UInt16} {left : Nat} (hleft : 0 < left)
    (h : ∀ i ∈ s.udpPcbs, (s.pcb i).localPort ≠ nextPort port) :
    udpNewPort s port left = (nextPort port, nextPort port) := by
  cases left with
  | zero => exact absurd hleft (Nat.lt_irrefl 0)
  | succ left =>
    have hany : (s.udpPcbs.any fun i => (s.pcb i).localPort = nextPort port) = false := by
      rw [List.any_eq_false]
      intro i hi
      simpa using h i hi
    rw [udpNewPort, hany]
    rfl

theorem udpConnect_of_new {s : Udp} {i : Nat} {ipaddr : UInt32} {port : UInt16}
    (hi : s.pcb i = {}) (hlist : i ∉ s.udpPcbs) (hport : 0xc000 ≤ s.udpPort.toNat)
    (h : ∀ j ∈ s.udpPcbs, (s.pcb j).localPort ≠ nextPort s.udpPort) :
    udpConnect s i ipaddr port = (errOk,
      { s with udpPort := nextPort s.udpPort, udpPcbs := i :: s.udpPcbs }.set i
        { remoteIp := ipaddr, localPort := nextPort s.udpPort, remotePort := port,
          connected := true }) := by
  have hnew := udpNewPort_of_free (show 0 < 2 ^ 14 by decide) h
  have hne : nextPort s.udpPort ≠ 0 := by
    intro h0
    have hle := le_nextPort hport
    rw [h0] at hle
    exact absurd hle (by decide)
  have hbind : udpBind s i 0 0 = (errOk,
      { s with udpPort := nextPort s.udpPort, udpPcbs := i :: s.udpPcbs }.set i
        { localPort := nextPort s.udpPort }) := by
    unfold udpBind
    rw [if_pos rfl, hnew]
    dsimp only
    rw [if_neg hne, if_neg (fun h => h.1 rfl), if_neg hlist, hi]
  unfold udpConnect
  rw [hi]
  dsimp only
  rw [if_pos rfl, hbind]
  dsimp only
  rw [if_neg (fun h => h rfl)]
  simp [Udp.set]

theorem udpBind_of_not_bound {s : Udp} {i : Nat} {ipaddr : UInt32} {port : UInt16}
    (hport : port ≠ 0) (hlist : i ∈ s.udpPcbs) (h : bound s i ipaddr port = false) :
    udpBind s i ipaddr port =
      (errOk, s.set i { s.pcb i with localIp := ipaddr, localPort := port }) := by
  have hbound : ¬(port ≠ 0 ∧ bound s i ipaddr port = true) := by
    rw [h]
    exact fun h => Bool.false_ne_true h.2
  unfold udpBind
  rw [if_neg hport]
  dsimp only
  rw [if_neg hport, if_neg hbound, if_pos hlist]

theorem le_udpPort_udpInit (pcb : Nat → UdpPcb) (rand : UInt32) :
    0xc000 ≤ (udpInit pcb rand).udpPort.toNat := by
  have hmask : (rand &&& ~~~0xc000).toNat % 2 ^ 16 ≤ 0x3fff := by
    have hval : (~~~0xc000 : UInt32).toNat = 0xffff3fff := rfl
    rw [UInt32.toNat_and, hval, Nat.and_mod_two_pow]
    exact Nat.and_le_right
  have hval : (0xc000 : UInt32).toNat = 0xc000 := rfl
  rw [udpInit, UInt32.toNat_toUInt16, UInt32.toNat_add, hval]
  omega

/-- Whatever `rand` returns, both blocks are opened, the one to the dashboard on its port. -/
theorem ready_openSockets (pcb : Nat → UdpPcb) (rand : UInt32) :
    ∃ s, openSockets (udpInit pcb rand) = some (0, 1, s) ∧ Ready s 0 1 := by
  have hport := le_udpPort_udpInit pcb rand
  obtain ⟨port, hinit⟩ : ∃ port, udpInit pcb rand = ⟨pcb, [0, 1, 2, 3], [], port⟩ := ⟨_, rfl⟩
  rw [hinit] at hport ⊢
  have hnext : 0xc000 ≤ (nextPort port).toNat := le_nextPort hport
  have hport3000 : nextPort port ≠ 3000 := by
    intro h
    rw [h] at hnext
    exact absurd hnext (by decide)
  -- the states after `udp_new`, and after the calls of `udp_connect`
  let s₀ : Udp := ⟨Function.update (Function.update pcb 0 {}) 1 {}, [2, 3], [], port⟩
  let s₁ : Udp := { s₀ with udpPort := nextPort port, udpPcbs := [0] }.set 0
    (spacexPcb (nextPort port))
  let s₂ : Udp := { s₁ with udpPort := nextPort (nextPort port), udpPcbs := [1, 0] }.set 1
    (spacexPcb (nextPort (nextPort port)))
  have h₁ : udpConnect s₀ 0 devIp 3000 = (errOk, s₁) :=
    udpConnect_of_new rfl List.not_mem_nil hport fun _ h => absurd h List.not_mem_nil
  have h₂ : udpConnect s₁ 1 devIp 3000 = (errOk, s₂) := by
    refine udpConnect_of_new rfl (by simp [s₁, Udp.set]) hnext fun j hj => ?_
    obtain rfl := List.mem_singleton.mp hj
    exact (nextPort_ne _).symm
  have h₃ : udpBind s₂ 1 gnetif.ipAddr 3000 = (errOk, s₂.set 1
      { s₂.pcb 1 with localIp := gnetif.ipAddr, localPort := 3000 }) := by
    refine udpBind_of_not_bound (by decide) List.mem_cons_self ?_
    simp [bound, s₂, s₁, Udp.set, spacexPcb, hport3000]
  refine ⟨udpRecv (s₂.set 1 { s₂.pcb 1 with localIp := gnetif.ipAddr, localPort := 3000 }) 1,
    ?_, ?_⟩
  · have hnew : udpNew ⟨pcb, [0, 1, 2, 3], [], port⟩ =
        some (0, ⟨Function.update pcb 0 {}, [1, 2, 3], [], port⟩) := rfl
    have hnew' : udpNew ⟨Function.update pcb 0 {}, [1, 2, 3], [], port⟩ = some (1, s₀) := rfl
    rw [openSockets, hnew, Option.bind_eq_bind, Option.bind_some]
    dsimp only
    rw [hnew', Option.bind_eq_bind, Option.bind_some]
    dsimp only
    rw [h₁]
    dsimp only
    rw [h₂]
    dsimp only
    rw [h₃]
    rfl
  · refine ⟨by decide, .refl _, ?_, nextPort port, hport3000, ?_⟩
    · simp [udpRecv, Udp.set, s₂, spacexPcb, dashboardPcb]
    · simp [udpRecv, Udp.set, s₂, s₁]

end Open

/-! ## Commands -/

section Commands

variable {s : Udp} {spacex dashboard : Nat}

theorem Ready.receive (h : Ready s spacex dashboard) (d : IpPacket) :
    Ready (receive s d) spacex dashboard := by
  obtain ⟨pcbs, hperm, heq⟩ := udpInput_snd s gnetif d
  have hreceive : PodFirmware.receive s d = { s with udpPcbs := pcbs } := heq
  rw [hreceive]
  exact ⟨h.ne, hperm.trans h.perm, h.dashboard, h.spacex⟩

theorem Ready.mem_iff (h : Ready s spacex dashboard) {i : Nat} :
    i ∈ s.udpPcbs ↔ i = dashboard ∨ i = spacex := by
  rw [h.perm.mem_iff, List.mem_cons, List.mem_singleton]

/-- A datagram is for the dashboard's block exactly if it says so. -/
theorem Ready.findPcb_iff (h : Ready s spacex dashboard) (d : IpPacket) :
    (findPcb s gnetif d [] none s.udpPcbs).1 = some dashboard ↔
      d.isFor gnetif dashboardPcb = true ∧ d.isFrom dashboardPcb = true := by
  obtain ⟨port, hport, hspacex⟩ := h.spacex
  have hconnected : ∀ i ∈ s.udpPcbs, (s.pcb i).connected = true := by
    intro i hi
    rcases h.mem_iff.mp hi with rfl | rfl
    · rw [h.dashboard]
      rfl
    · rw [hspacex]
      rfl
  rw [findPcb_connected hconnected]
  constructor
  · intro hfind
    have hpred := List.find?_some hfind
    rwa [h.dashboard, Bool.and_eq_true] at hpred
  · rintro ⟨hfor, hfrom⟩
    cases hfind : s.udpPcbs.find? fun i => d.isFor gnetif (s.pcb i) && d.isFrom (s.pcb i) with
    | none =>
      have hnone := List.find?_eq_none.mp hfind dashboard (h.mem_iff.mpr (.inl rfl))
      rw [h.dashboard, hfor, hfrom] at hnone
      exact absurd rfl hnone
    | some i =>
      rcases h.mem_iff.mp (List.mem_of_find?_eq_some hfind) with rfl | rfl
      · rfl
      · have hpred := List.find?_some hfind
        rw [hspacex, Bool.and_eq_true] at hpred
        have hfor' := hpred.1
        rw [IpPacket.isFor, Bool.and_eq_true, beq_iff_eq] at hfor hfor'
        exact absurd (hfor'.1.trans hfor.1.symm) hport

/-- An intact datagram from the dashboard to the pod. -/
structure FromDashboard (d : IpPacket) : Prop where
  header : udpHlen ≤ (d.p.headD []).length
  src : d.src = devIp
  srcPort : lwipHtons d.header.src = 3000
  dest : d.dest = gnetif.ipAddr ∨ ip4AddrIsmulticast d.dest = true
  notBroadcast : ip4AddrIsbroadcast d.dest gnetif = false
  destPort : lwipHtons d.header.dest = 3000
  intact : d.header.chksum = 0 ∨ OnesComplement.sum d.covered = 65535

theorem isFor_dashboardPcb (d : IpPacket) : d.isFor gnetif dashboardPcb = true ↔
    lwipHtons d.header.dest = 3000 ∧ ip4AddrIsbroadcast d.dest gnetif = false ∧
      (d.dest = gnetif.ipAddr ∨ ip4AddrIsmulticast d.dest = true) := by
  have hoption : dashboardPcb.option sofBroadcast = false := rfl
  have hlocal : (dashboardPcb.localIp == 0) = false := by decide
  have hport : dashboardPcb.localPort = 3000 := rfl
  have hip : dashboardPcb.localIp = gnetif.ipAddr := rfl
  rw [IpPacket.isFor, udpInputLocalMatch, hoption, hlocal, hport, hip, Bool.and_eq_true,
    beq_iff_eq, eq_comm]
  refine and_congr_right fun _ => ?_
  cases ip4AddrIsbroadcast d.dest gnetif with
  | true => simp
  | false =>
    rw [if_neg Bool.false_ne_true, Bool.false_or, Bool.or_eq_true, beq_iff_eq, or_comm]
    exact (or_congr_left eq_comm).trans (and_iff_right rfl).symm

theorem isFrom_dashboardPcb (d : IpPacket) : d.isFrom dashboardPcb = true ↔
    lwipHtons d.header.src = 3000 ∧ d.src = devIp := by
  have hremote : (dashboardPcb.remoteIp == 0) = false := by decide
  have hport : dashboardPcb.remotePort = 3000 := rfl
  have hip : dashboardPcb.remoteIp = devIp := rfl
  rw [IpPacket.isFrom, hremote, hport, hip, Bool.false_or, Bool.and_eq_true, beq_iff_eq,
    beq_iff_eq, eq_comm, @eq_comm _ devIp]

theorem Ready.received_iff (h : Ready s spacex dashboard) {d : IpPacket} {i : Nat}
    {payload : List (List UInt8)} {port : UInt16} :
    (udpInput s gnetif d).1 = .received i payload port ↔
      i = dashboard ∧ payload = d.payload ∧ port = 3000 ∧ FromDashboard d := by
  have hintact : d.chksumFails = false ↔
      (d.header.chksum = 0 ∨ OnesComplement.sum d.covered = 65535) := by
    rw [← Bool.not_eq_true, chksumFails_iff]
    tauto
  rw [udpInput_received_iff]
  constructor
  · rintro ⟨hheader, hfind, hpasses, hrecv, rfl, rfl⟩
    have hmem : i ∈ s.udpPcbs := mem_of_findPcb hfind
    rcases h.mem_iff.mp hmem with rfl | rfl
    · obtain ⟨hfor, hfrom⟩ := (h.findPcb_iff d).mp hfind
      obtain ⟨hdestPort, hbroadcast, hdest⟩ := (isFor_dashboardPcb d).mp hfor
      obtain ⟨hsrcPort, hsrc⟩ := (isFrom_dashboardPcb d).mp hfrom
      exact ⟨rfl, rfl, hsrcPort, hheader, hsrc, hsrcPort, hdest, hbroadcast, hdestPort,
        hintact.mp hpasses⟩
    · -- the block to SpaceX has no callback
      obtain ⟨port, -, hspacex⟩ := h.spacex
      rw [hspacex] at hrecv
      exact absurd hrecv Bool.false_ne_true
  · rintro ⟨rfl, rfl, rfl, hd⟩
    have hfor := (isFor_dashboardPcb d).mpr ⟨hd.destPort, hd.notBroadcast, hd.dest⟩
    have hfrom := (isFrom_dashboardPcb d).mpr ⟨hd.srcPort, hd.src⟩
    refine ⟨hd.header, (h.findPcb_iff d).mpr ⟨hfor, hfrom⟩, hintact.mpr hd.intact, ?_, rfl,
      hd.srcPort.symm⟩
    rw [h.dashboard]
    rfl

theorem Ready.run (h : Ready s spacex dashboard) (ds : List IpPacket) :
    Ready (Machine.run PodFirmware.receive s ds) spacex dashboard := by
  have hstep : ∀ s d, Ready s spacex dashboard →
      Ready (PodFirmware.receive s d) spacex dashboard := fun _ d h => h.receive d
  exact Machine.run_inv_of_step hstep h

/-- The callback that turns text into commands is reached by the dashboard's datagrams only, and by
all of them that are intact, whatever else has been received before. -/
theorem command_received_iff (pcb : Nat → UdpPcb) (rand : UInt32) :
    ∃ s, openSockets (udpInit pcb rand) = some (0, 1, s) ∧
      ∀ (ds : List IpPacket) (d : IpPacket) (i : Nat) (payload : List (List UInt8)) (port : UInt16),
        (udpInput (Machine.run receive s ds) gnetif d).1 = .received i payload port ↔
          i = 1 ∧ payload = d.payload ∧ port = 3000 ∧ FromDashboard d := by
  obtain ⟨s, hopen, hready⟩ := ready_openSockets pcb rand
  exact ⟨s, hopen, fun ds _ _ _ _ => (hready.run ds).received_iff⟩

end Commands

end PodFirmware
