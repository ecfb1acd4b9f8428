import PodFirmware.Outgoing

/-!
# PodFirmware.Returns

The end of a call of `low_level_output`.

* `work`: a call comes to its end.
* `Called`: a frame is refused only for want of descriptors, and then nothing of it is handed over.
-/

namespace PodFirmware
namespace Transmit

open SharedRing

/-- The `k` descriptors from the place of the driver on are not the DMA's. -/
def Free (s : Tx) (k : Nat) : Prop := ∀ j < k, (s.desc ((s.txDesc + j) % ethTxBufNb)).own = false

/-- The driver is in the middle of a call with the chain `p`, or at its end: the frame has been
accepted, or it has been refused and nothing is handed over, which does not happen when the
descriptors that it needs were free (`granted`). -/
def Called (granted : Prop) (s₀ : Tx) (p : List (List UInt8)) (s : Tx) : Prop :=
  s.p = p ∧
  match s.pc with
  | .idle => (s.errval = errOk ∧ s.accepted = s₀.accepted ++ [p.flatten]) ∨
      (¬granted ∧ s.errval = errUse ∧ s.accepted = s₀.accepted ∧ s.txDesc = s₀.txDesc)
  | .descriptor _ _ => s.accepted = s₀.accepted
  | _ => s.accepted = s₀.accepted ∧ s.txDesc = s₀.txDesc ∧
      (granted → ∃ k, 0 < k ∧ Free s k ∧ p.flatten.length ≤ k * ethTxBufSize)

/-- The statements that are left of a call, at most. -/
def work (s : Tx) : Nat :=
  match s.pc with
  | .idle => 0
  | .chain rest => 2 * rest.flatten.length + s.bufferoffset + 2 * rest.length + ethTxBufNb + 1
  | .segment payload rest => 2 * (payload.length + rest.flatten.length) + s.bufferoffset +
      2 * rest.length + ethTxBufNb + 2
  | .descriptor i bufcount => bufcount - i

section Return

variable {granted : Prop} {s s₀ : Tx} {q : List Segment} {p : List (List UInt8)}

theorem work_dma (s : Tx) : work (dma s) = work s := by
  rw [dma]
  split <;> rfl

theorem work_cpu (h : Inv s q) (hpc : s.pc ≠ .idle) : work (cpu s) < work s := by
  have hphase := h.phase
  rw [Phase] at hphase
  unfold cpu
  cases hs : s.pc with
  | idle => exact absurd hs hpc
  | chain rest =>
    cases rest with
    | nil =>
      rw [hs] at hphase
      obtain ⟨-, d, hcopied, hroom, -⟩ := hphase
      have hwork : work s = s.bufferoffset + ethTxBufNb + 1 := by
        simp [work, hs]
      have hd := hcopied.lt
      have hframe := hcopied.framelength
      have hle := hcopied.offset_le
      rw [hwork]
      dsimp only
      rw [ethTransmitFrame]
      split
      · exact Nat.succ_pos _
      · split
        · exact Nat.succ_pos _
        · simp only [work, Nat.sub_zero]
          simp only [ethTxBufNb, ethTxBufSize] at hd hframe hle
          split
          · split
            · simp only [ethTxBufNb, ethTxBufSize] at *
              omega
            · simp only [ethTxBufNb, ethTxBufSize] at *
              omega
          · simp only [ethTxBufNb]
            omega
    | cons payload rest =>
      have hwork : work s = 2 * (payload.length + rest.flatten.length) + s.bufferoffset +
          2 * rest.length + ethTxBufNb + 3 := by
        simp only [work, hs, List.flatten_cons, List.length_append, List.length_cons]
        omega
      rw [hwork]
      dsimp only
      split
      · exact Nat.succ_pos _
      · simp only [work]
        omega
  | segment payload rest =>
    rw [hs] at hphase
    obtain ⟨-, d, hcopied, -⟩ := hphase
    have hle := hcopied.offset_le
    have hwork : work s = 2 * (payload.length + rest.flatten.length) + s.bufferoffset +
        2 * rest.length + ethTxBufNb + 2 := by
      simp only [work, hs]
    rw [hwork]
    dsimp only
    split
    · split
      · exact Nat.succ_pos _
      · simp only [work, List.length_drop]
        simp only [ethTxBufSize] at *
        omega
    · simp only [work]
      omega
  | descriptor i bufcount =>
    rw [hs] at hphase
    obtain ⟨sent, -, hhanding, -⟩ := hphase
    have hlt := hhanding.lt
    have hwork : work s = bufcount - i := by
      simp only [work, hs]
    rw [hwork]
    dsimp only
    split
    · simp only [work]
      omega
    · exact Nat.sub_pos_of_lt hlt

theorem Free.dma {k : Nat} (h : Free s k) : Free (dma s) k := by
  intro j hj
  rw [Transmit.dma]
  split
  · by_cases heq : (s.txDesc + j) % ethTxBufNb = s.current
    · simp [heq]
    · simp [heq, h j hj]
  · exact h j hj

theorem Called.dma (h : Called granted s₀ p s) : Called granted s₀ p (dma s) := by
  have hsame : (Transmit.dma s).pc = s.pc ∧ (Transmit.dma s).p = s.p ∧
      (Transmit.dma s).errval = s.errval ∧ (Transmit.dma s).accepted = s.accepted ∧
      (Transmit.dma s).txDesc = s.txDesc := by
    rw [Transmit.dma]
    split <;> exact ⟨rfl, rfl, rfl, rfl, rfl⟩
  obtain ⟨hpc, hp, herr, hacc, htx⟩ := hsame
  have hfree : (granted → ∃ k, 0 < k ∧ Free s k ∧ p.flatten.length ≤ k * ethTxBufSize) →
      granted → ∃ k, 0 < k ∧ Free (Transmit.dma s) k ∧ p.flatten.length ≤ k * ethTxBufSize := by
    intro h hgranted
    obtain ⟨k, hk, hfree, hfits⟩ := h hgranted
    exact ⟨k, hk, hfree.dma, hfits⟩
  unfold Called at h ⊢
  rw [hpc, hp, herr, hacc, htx]
  refine ⟨h.1, ?_⟩
  replace h := h.2
  cases hs : s.pc with
  | idle => rwa [hs] at h
  | descriptor i bufcount => rwa [hs] at h
  | chain rest =>
    rw [hs] at h
    exact ⟨h.1, h.2.1, hfree h.2.2⟩
  | segment payload rest =>
    rw [hs] at h
    exact ⟨h.1, h.2.1, hfree h.2.2⟩

/-- As long as the descriptors that the frame needs are free, no check of the driver fails. -/
theorem Called.cpu (hcall : Called granted s₀ p s) (h : Inv s q) :
    Called granted s₀ p (cpu s) := by
  have hphase := h.phase
  rw [Phase] at hphase
  unfold Called at hcall
  obtain ⟨hp, hcall⟩ := hcall
  unfold Transmit.cpu
  cases hs : s.pc with
  | idle =>
    rw [hs] at hcall
    refine ⟨hp, ?_⟩
    rw [hs]
    exact hcall
  | chain rest =>
    rw [hs] at hphase hcall
    obtain ⟨-, d, hcopied, -, hpos⟩ := hphase
    obtain ⟨hacc, htx, hfree⟩ := hcall
    have hlength := hcopied.length h.wired
    have hframe := hcopied.framelength
    cases rest with
    | nil =>
      dsimp only
      rw [ethTransmitFrame]
      split
      · exact ⟨hp, .inl ⟨rfl, by simp only [finish, hacc, hp]⟩⟩
      · split
        · exact ⟨hp, .inl ⟨rfl, by simp only [finish, hacc, hp]⟩⟩
        · exact ⟨hp, hacc⟩
    | cons payload rest =>
      dsimp only
      split
      · next hown =>
        refine ⟨hp, .inr ⟨fun hgranted => ?_, rfl, hacc, htx⟩⟩
        obtain ⟨k, hk, hfree, hfits⟩ := hfree hgranted
        have hd : d < k := by
          rw [hp] at hlength
          by_contra hno
          have := Nat.mul_le_mul_right ethTxBufSize (Nat.le_of_not_lt hno)
          have := hpos (by omega)
          omega
        rw [hcopied.dmaTxDesc, hfree d hd] at hown
        cases hown
      · exact ⟨hp, hacc, htx, hfree⟩
  | segment payload rest =>
    rw [hs] at hphase hcall
    obtain ⟨-, d, hcopied, -, -⟩ := hphase
    obtain ⟨hacc, htx, hfree⟩ := hcall
    have hlength := hcopied.length h.wired
    have hframe := hcopied.framelength
    have hle := hcopied.offset_le
    dsimp only
    split
    · next hmore =>
      split
      · next hown =>
        refine ⟨hp, .inr ⟨fun hgranted => ?_, rfl, hacc, htx⟩⟩
        obtain ⟨k, hk, hfree, hfits⟩ := hfree hgranted
        have hd : d + 1 < k := by
          rw [hp, List.length_append] at hlength
          by_contra hno
          have := Nat.mul_le_mul_right ethTxBufSize (Nat.le_of_not_lt hno)
          rw [Nat.add_mul, Nat.one_mul] at this
          omega
        have hlt : s.dmaTxDesc < ethTxBufNb := hcopied.dmaTxDesc ▸ Nat.mod_lt _ (by decide)
        rw [h.wired.next_eq _ hlt, hcopied.dmaTxDesc, Nat.mod_add_mod, Nat.add_assoc,
          hfree (d + 1) hd] at hown
        cases hown
      · exact ⟨hp, hacc, htx, hfree⟩
    · exact ⟨hp, hacc, htx, hfree⟩
  | descriptor i bufcount =>
    rw [hs] at hcall
    dsimp only
    split
    · exact ⟨hp, hcall⟩
    · exact ⟨hp, .inl ⟨rfl, by simp only [finish, hcall, hp]⟩⟩

/-- A call is under way: the driver and the DMA take the steps `is`. -/
theorem idle_of_work (h : Inv s q) {is : List Input} (his : ∀ i ∈ is, i = .cpu ∨ i = .dma)
    (hwork : work s ≤ is.count .cpu) : (Machine.run step s is).pc = .idle := by
  induction is generalizing s q with
  | nil =>
    rw [Machine.run_nil]
    have hzero : work s = 0 := Nat.le_zero.mp hwork
    by_contra hpc
    have := work_cpu h hpc
    omega
  | cons i is ih =>
    have his' : ∀ j ∈ is, j = .cpu ∨ j = .dma := fun j hj => his j (List.mem_cons_of_mem _ hj)
    rw [Machine.run_cons]
    rcases his i List.mem_cons_self with rfl | rfl
    · obtain ⟨q', h'⟩ := inv_cpu h
      rw [List.count_cons_self] at hwork
      refine ih h' his' ?_
      by_cases hpc : s.pc = .idle
      · have hstay : cpu s = s := by rw [cpu, hpc]
        have hzero : work s = 0 := by simp only [work, hpc]
        rw [step, hstay, hzero]
        exact Nat.zero_le _
      · have := work_cpu h hpc
        rw [step]
        omega
    · obtain ⟨q', h', -⟩ := inv_dma h
      rw [List.count_cons_of_ne (by decide)] at hwork
      exact ih h' his' (by rwa [step, work_dma])

theorem called_run (h : Inv s q) (hcall : Called granted s₀ p s) {is : List Input}
    (his : ∀ i ∈ is, i = .cpu ∨ i = .dma) : Called granted s₀ p (Machine.run step s is) := by
  induction is generalizing s q with
  | nil => exact hcall
  | cons i is ih =>
    have his' : ∀ j ∈ is, j = .cpu ∨ j = .dma := fun j hj => his j (List.mem_cons_of_mem _ hj)
    rw [Machine.run_cons]
    rcases his i List.mem_cons_self with rfl | rfl
    · obtain ⟨q', h'⟩ := inv_cpu h
      exact ih h' (hcall.cpu h) his'
    · obtain ⟨q', h', -⟩ := inv_dma h
      exact ih h' hcall.dma his'

end Return

/-- A call of `low_level_output` at any time when the driver is idle, with any steps of the DMA in
between: it returns. Then the frame is accepted as a whole or refused without a trace, and it is
accepted when as many descriptors as it fills were free at the call. -/
theorem output_returns (tab : Nat → DmaDesc) {buff : Nat → List UInt8}
    (hbuff : ∀ i < ethTxBufNb, (buff i).length = ethTxBufSize) {is : List Input}
    (hfits : ∀ i ∈ is, i.Fits) {p : List (List UInt8)} (hp : Input.Fits (.output p))
    (hidle : (Machine.run step (init tab buff) is).pc = .idle) {js : List Input}
    (hjs : ∀ j ∈ js, j = .cpu ∨ j = .dma)
    (hlong : 2 * (p.flatten.length + p.length) + ethTxBufNb + 1 ≤ js.count .cpu) :
    let s := Machine.run step (init tab buff) is
    let s' := Machine.run step s (.output p :: js)
    s'.pc = .idle ∧
      ((s'.errval = errOk ∧ s'.accepted = s.accepted ++ [p.flatten]) ∨
        (s'.errval = errUse ∧ s'.accepted = s.accepted ∧ s'.txDesc = s.txDesc)) ∧
      ∀ k, 0 < k → p.flatten.length ≤ k * ethTxBufSize → Free s k → s'.errval = errOk := by
  obtain ⟨q, h⟩ := inv_run tab hbuff hfits
  generalize Machine.run step (init tab buff) is = s at *
  have hcall : Called (∃ k, 0 < k ∧ Free s k ∧ p.flatten.length ≤ k * ethTxBufSize) s p
      (lowLevelOutput p s) := by
    rw [lowLevelOutput, hidle]
    exact ⟨rfl, rfl, rfl, id⟩
  have hwork : work (lowLevelOutput p s) ≤ js.count .cpu := by
    rw [lowLevelOutput, hidle]
    simp only [work]
    omega
  have hend := idle_of_work (inv_output h hp) hjs hwork
  have hlast := (called_run (inv_output h hp) hcall hjs).2
  rw [hend] at hlast
  refine ⟨hend, ?_, fun k hk hle hfree => ?_⟩
  · rcases hlast with hok | ⟨-, hrefused⟩
    · exact .inl hok
    · exact .inr hrefused
  · rcases hlast with hok | ⟨hno, -⟩
    · exact hok.1
    · exact absurd ⟨k, hk, hfree, hle⟩ hno

/-- The first frame after boot, while the DMA looks for one. -/
theorem first_frame_accepted :
    let s := Machine.run step (init (fun _ => ⟨true, true, true, 0, 0, 0⟩)
      fun _ => List.replicate ethTxBufSize 0) []
    let s' := Machine.run step s (.output [[1]] :: .dma :: List.replicate 9 .cpu)
    s'.pc = .idle ∧
      ((s'.errval = errOk ∧ s'.accepted = s.accepted ++ [[[1]].flatten]) ∨
        (s'.errval = errUse ∧ s'.accepted = s.accepted ∧ s'.txDesc = s.txDesc)) ∧
      ∀ k, 0 < k → [[1]].flatten.length ≤ k * ethTxBufSize → Free s k → s'.errval = errOk :=
  output_returns _ (fun _ _ => List.length_replicate) (by simp)
    (by simp [Input.Fits, ethTxBufNb, ethTxBufSize]) rfl (by decide) (by decide)

end Transmit
end PodFirmware
