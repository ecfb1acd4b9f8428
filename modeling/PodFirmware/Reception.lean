import PodFirmware.Incoming

/-!
# PodFirmware.Reception

The end of a call of `low_level_input`.

* `work`: a call comes to its end.
* `Due`: a frame that lies in the ring is taken in the next call.
-/

namespace PodFirmware
namespace Receive

open SharedRing

/-- The statements that are left of a call, at most. -/
def work (s : Rx) : Nat :=
  match s.pc with
  | .idle => 0
  | .scan k => ethRxBufNb - k + 2 * 2 ^ 16 + 2 * s.free.length + ethRxBufNb + 4
  | .chain lens => 2 * lens.sum + s.bufferoffset + 2 * lens.length + ethRxBufNb + 2
  | .segment left _ lens => 2 * (left + lens.sum) + s.bufferoffset + 2 * lens.length +
      ethRxBufNb + 3
  | .release i => s.infos.segCount + 1 - i

section Work

variable {s : Rx} {r : Nat} {q : List Segment}

theorem length_allocTail {base rem : Nat} {free : List Nat} {chain : List Message.Segment}
    (h : Message.allocTail base rem free = some chain) : chain.length ≤ free.length := by
  induction free generalizing rem chain with
  | nil =>
    cases rem with
    | zero =>
      cases h
      exact Nat.le_refl 0
    | succ rem => cases h
  | cons e free ih =>
    cases rem with
    | zero =>
      cases h
      exact Nat.zero_le _
    | succ rem =>
      obtain ⟨tail, htail, rfl⟩ := Option.map_eq_some_iff.mp h
      exact Nat.succ_le_succ (ih htail)

theorem length_pbufAlloc {free lens : List Nat} {len : UInt16}
    (h : pbufAlloc free len = some lens) : lens.length ≤ free.length := by
  cases free with
  | nil => cases h
  | cons e free =>
    obtain ⟨chain, hchain, rfl⟩ := Option.map_eq_some_iff.mp h
    obtain ⟨tail, htail, rfl⟩ := Option.map_eq_some_iff.mp hchain
    rw [List.length_map, List.length_cons, List.length_cons]
    exact Nat.succ_le_succ (length_allocTail htail)

theorem work_receivedFrame (hcount : s.infos.segCount ≤ ethRxBufNb) :
    work (receivedFrame s) < 2 * 2 ^ 16 + 2 * s.free.length + ethRxBufNb + 4 := by
  rw [receivedFrame]
  split
  · next lens hlens =>
    have halloc : pbufAlloc s.free s.infos.length.toUInt16 = some lens := by
      split at hlens
      · exact hlens
      · cases hlens
    have hlen := length_pbufAlloc halloc
    have hsum := sum_pbufAlloc halloc
    have hlt := s.infos.length.toUInt16.toNat_lt
    simp only [work]
    omega
  · simp only [work]
    omega

theorem work_cpu (h : Inv s r q) (hpc : s.pc ≠ .idle) : work (cpu s) < work s := by
  have hphase := h.phase
  rw [Phase] at hphase
  unfold cpu
  cases hs : s.pc with
  | idle => exact absurd hs hpc
  | scan k =>
    rw [hs] at hphase
    have hwork : work s = ethRxBufNb - k + 2 * 2 ^ 16 + 2 * s.free.length + ethRxBufNb + 4 := by
      simp only [work, hs]
    rw [hwork]
    dsimp only
    rw [scan]
    dsimp only
    split
    · next hguard =>
      rw [Bool.and_eq_true, Bool.not_eq_true', decide_eq_true_eq] at hguard
      obtain ⟨f, rest, hf, hless, -⟩ := hphase.frame h hguard.1
      have hcount := (h.pending_mem hf).2
      split
      · simp only [work]
        omega
      · split
        · simp only [work]
          omega
        · refine Nat.lt_of_lt_of_le (work_receivedFrame (by dsimp only; omega)) ?_
          dsimp only
          omega
    · exact Nat.succ_pos _
  | chain lens =>
    rw [hs] at hphase
    obtain ⟨f, ps, d, hfound, -⟩ := hphase
    obtain ⟨rest, hf, -⟩ := hfound.frames
    have hcount := (h.pending_mem hf).2
    have hseg := hfound.segCount
    cases lens with
    | nil =>
      have hwork : work s = s.bufferoffset + ethRxBufNb + 2 := by
        simp [work, hs]
      rw [hwork]
      simp only [work]
      omega
    | cons len lens =>
      have hwork : work s = 2 * (len + lens.sum) + s.bufferoffset + 2 * lens.length +
          ethRxBufNb + 4 := by
        simp only [work, hs, List.sum_cons, List.length_cons]
        omega
      rw [hwork]
      simp only [work]
      omega
  | segment left payload lens =>
    rw [hs] at hphase
    obtain ⟨f, ps, d, -, -, hreading⟩ := hphase
    have hoff := hreading.offset_le
    have hwork : work s = 2 * (left + lens.sum) + s.bufferoffset + 2 * lens.length +
        ethRxBufNb + 3 := by
      simp only [work, hs]
    rw [hwork]
    dsimp only
    split
    · simp only [work]
      simp only [ethRxBufSize] at *
      omega
    · simp only [work]
      omega
  | release i =>
    rw [hs] at hphase
    obtain ⟨f, hrel⟩ := hphase
    have hle := hrel.le
    have hseg := hrel.segCount
    have hwork : work s = s.infos.segCount + 1 - i := by
      simp only [work, hs]
    rw [hwork]
    dsimp only
    split
    · simp only [work]
      omega
    · have hzero : work (finish s) = 0 := rfl
      rw [hzero]
      omega

theorem Grown.work {s' : Rx} {q' : List Segment} (h : Grown s s' q q') : work s' = work s := by
  unfold Receive.work
  rw [h.pc, h.free, h.bufferoffset, h.infos]

end Work

/-! ## The next frame -/

/-- A call in which the first frame lies in the ring as a whole, or at the end of which it has been
taken: then `n + 1` frames have been taken. -/
def Due (n : Nat) (s : Rx) (q : List Segment) : Prop :=
  match s.pc with
  | .idle => s.taken.length = n + 1
  | .scan k => s.taken.length = n ∧ k ≤ s.infos.segCount ∧
      ∃ f rest, pending s = f :: rest ∧ segCount f ≤ q.length
  | _ => s.taken.length = n

section Due

variable {s s' : Rx} {r n : Nat} {q q' : List Segment}

theorem Grown.taken (h : Grown s s' q q') (htaken : s'.taken = s.taken)
    (hd : Due n s q) : Due n s' q' := by
  unfold Due at hd ⊢
  rw [h.pc, htaken, h.infos]
  cases hpc : s.pc with
  | idle => rwa [hpc] at hd
  | scan k =>
    rw [hpc] at hd
    obtain ⟨hlen, hk, f, rest, hf, hle⟩ := hd
    obtain ⟨more, hpending, -⟩ := h.more
    exact ⟨hlen, hk, f, rest ++ more, by rw [hpending, hf, List.cons_append],
      Nat.le_trans hle h.length_le⟩
  | chain lens => rwa [hpc] at hd
  | segment left payload lens => rwa [hpc] at hd
  | release i => rwa [hpc] at hd

theorem due_receivedFrame (h : s.taken.length = n) : Due n (receivedFrame s) q := by
  rw [receivedFrame]
  split
  · exact h
  · exact h

/-- The search goes on, and ends at the last segment of the frame. -/
theorem due_scan (h : Inv s r q) {k : Nat} (hpc : s.pc = .scan k) (hd : Due n s q) :
    Due n (scan s k) q := by
  have hphase := h.phase
  rw [Phase, hpc] at hphase
  rw [Due, hpc] at hd
  obtain ⟨hlen, hk, f, rest, hf, hle⟩ := hd
  obtain ⟨hne, hcount⟩ := h.pending_mem hf
  have hless : s.infos.segCount < segCount f := by
    rcases Nat.eq_zero_or_pos s.infos.segCount with hzero | hpos
    · rw [hzero]
      exact segCount_pos hne
    · obtain ⟨-, -, f', rest', hf', hlt⟩ := hphase.first hpos
      rw [hf] at hf'
      obtain ⟨rfl, -⟩ := List.cons.inj hf'
      exact hlt
  have hmark := (h.ring.holds.marked_iff _ (Nat.lt_of_lt_of_le hless hcount)).mpr
    (Nat.lt_of_lt_of_le hless hle)
  rw [← hphase.rxDesc] at hmark
  rw [scan]
  dsimp only
  rw [if_pos (by rw [hmark, Bool.true_and, decide_eq_true_eq]; omega)]
  split
  · next hfirst =>
    have hqueue := hphase.queue
    rw [hf, List.flatMap_cons] at hqueue
    have hstores := h.ring.stores hqueue hless (Nat.lt_of_lt_of_le hless hle)
    rw [← hphase.rxDesc] at hstores
    rw [Bool.and_eq_true, hstores.fs] at hfirst
    have hzero := of_decide_eq_true hfirst.1
    exact ⟨hlen, by dsimp only; omega, f, rest, hf, hle⟩
  · split
    · exact ⟨hlen, Nat.succ_le_succ hk, f, rest, hf, hle⟩
    · exact due_receivedFrame hlen

theorem due_cpu (h : Inv s r q) (hd : Due n s q) :
    ∃ r' q', Inv (cpu s) r' q' ∧ Due n (cpu s) q' := by
  cases hpc : s.pc with
  | idle => exact ⟨r, q, by rwa [cpu, hpc], by rwa [cpu, hpc]⟩
  | scan k =>
    have hphase := h.phase
    rw [Phase, hpc] at hphase
    refine ⟨r, q, ?_, ?_⟩
    · rw [cpu, hpc]
      exact inv_scan h hphase k
    · rw [cpu, hpc]
      exact due_scan h hpc hd
  | chain lens =>
    rw [Due, hpc] at hd
    refine ⟨r, q, inv_chain h hpc, ?_⟩
    rw [cpu, hpc]
    cases lens <;> exact hd
  | segment left payload lens =>
    rw [Due, hpc] at hd
    refine ⟨r, q, inv_segment h hpc, ?_⟩
    rw [cpu, hpc]
    dsimp only
    split <;> exact hd
  | release i =>
    rw [Due, hpc] at hd
    obtain ⟨r', q', h'⟩ := inv_release h hpc
    refine ⟨r', q', h', ?_⟩
    rw [cpu, hpc]
    dsimp only
    split
    · exact hd
    · simp only [Due, finish, List.length_append, List.length_singleton, hd]

/-- A step of the DMA, or the arrival of a frame. -/
def Outside : Input → Prop
  | .arrive _ => True
  | .dma => True
  | _ => False

theorem grown_step (h : Inv s r q) {i : Input} (hi : Outside i) :
    ∃ q', Inv (step s i) r q' ∧ Grown s (step s i) q q' ∧ (step s i).taken = s.taken := by
  cases i with
  | input free => cases hi
  | cpu => cases hi
  | arrive frame =>
    obtain ⟨h', hgrown⟩ := inv_arrive h frame
    refine ⟨q, h', hgrown, ?_⟩
    rw [step, arrive]
    split <;> rfl
  | dma =>
    obtain ⟨q', h', hgrown⟩ := inv_dma h
    refine ⟨q', h', hgrown, ?_⟩
    rw [step, dma]
    split
    · rfl
    · dsimp only
      split <;> rfl

/-- The steps of a call, with any of the DMA in between. -/
theorem due_run (h : Inv s r q) (hd : Due n s q) {is : List Input}
    (his : ∀ i ∈ is, i = .cpu ∨ Outside i) : ∃ q', Due n (Machine.run step s is) q' := by
  induction is generalizing s r q with
  | nil => exact ⟨q, hd⟩
  | cons i is ih =>
    have his' : ∀ j ∈ is, j = .cpu ∨ Outside j := fun j hj => his j (List.mem_cons_of_mem _ hj)
    rw [Machine.run_cons]
    rcases his i List.mem_cons_self with rfl | hout
    · obtain ⟨r', q', h', hd'⟩ := due_cpu h hd
      exact ih h' hd' his'
    · obtain ⟨q', h', hgrown, htaken⟩ := grown_step h hout
      exact ih h' (hgrown.taken htaken hd) his'

theorem idle_of_work (h : Inv s r q) {is : List Input} (his : ∀ i ∈ is, i = .cpu ∨ Outside i)
    (hwork : work s ≤ is.count .cpu) : (Machine.run step s is).pc = .idle := by
  induction is generalizing s r q with
  | nil =>
    by_contra hpc
    have := work_cpu h hpc
    rw [List.count_nil] at hwork
    omega
  | cons i is ih =>
    have his' : ∀ j ∈ is, j = .cpu ∨ Outside j := fun j hj => his j (List.mem_cons_of_mem _ hj)
    rw [Machine.run_cons]
    rcases his i List.mem_cons_self with rfl | hout
    · obtain ⟨r', q', h'⟩ := inv_cpu h
      rw [List.count_cons_self] at hwork
      refine ih h' his' ?_
      by_cases hpc : s.pc = .idle
      · have hstay : cpu s = s := by rw [cpu, hpc]
        have hzero : work s = 0 := by simp only [work, hpc]
        rw [step, hstay, hzero]
        exact Nat.zero_le _
      · have := work_cpu h hpc
        rw [step]
        omega
    · obtain ⟨q', h', hgrown, -⟩ := grown_step h hout
      have hne : i ≠ .cpu := by
        rintro rfl
        cases hout
      rw [List.count_cons_of_ne hne] at hwork
      exact ih h' his' (by rwa [hgrown.work])

end Due

/-- Whenever the DMA has stored frames that have not been taken and is not in the middle of one, the
next call of `low_level_input` takes exactly one of them, whatever the DMA does meanwhile. -/
theorem input_takes_next (tab : Nat → DmaDesc) {buff : Nat → List UInt8}
    (hbuff : ∀ i < ethRxBufNb, (buff i).length = ethRxBufSize) {is : List Input}
    (hfits : ∀ i ∈ is, i.Fits) {free : List Nat} (hfree : Input.Fits (.input free))
    (hidle : (Machine.run step (init tab buff) is).pc = .idle)
    (htodo : (Machine.run step (init tab buff) is).todo = [])
    (hleft : (Machine.run step (init tab buff) is).taken.length <
      (Machine.run step (init tab buff) is).arrived.length)
    {js : List Input} (hjs : ∀ j ∈ js, j = .cpu ∨ Outside j)
    (hlong : 2 * 2 ^ 16 + 2 * free.length + 2 * ethRxBufNb + 4 ≤ js.count .cpu) :
    let s := Machine.run step (init tab buff) is
    let s' := Machine.run step s (.input free :: js)
    s'.pc = .idle ∧ s'.taken.length = s.taken.length + 1 := by
  obtain ⟨r, q, h⟩ := inv_run tab hbuff hfits
  generalize Machine.run step (init tab buff) is = s at *
  have hinv := inv_input h hfree
  have hphase := h.phase
  rw [Phase, hidle] at hphase
  have hcall : lowLevelInput free s = { s with free := free, pc := .scan 0 } := by
    rw [lowLevelInput, hidle]
  obtain ⟨f, rest, hf⟩ : ∃ f rest, pending s = f :: rest := by
    cases hpending : pending s with
    | nil =>
      have := List.drop_eq_nil_iff.mp hpending
      omega
    | cons f rest => exact ⟨f, rest, rfl⟩
  have hwhole : segCount f ≤ q.length := by
    have hqueue := congrArg List.length hphase.queue
    rw [htodo, hf, List.append_nil, List.flatMap_cons, List.length_append, length_segments]
      at hqueue
    omega
  have hdue : Due s.taken.length (lowLevelInput free s) q := by
    rw [Due, hcall]
    exact ⟨rfl, Nat.zero_le _, f, rest, hf, hwhole⟩
  have hval : work (lowLevelInput free s) =
      ethRxBufNb - 0 + 2 * 2 ^ 16 + 2 * free.length + ethRxBufNb + 4 := by
    rw [hcall, work]
  have hwork : work (lowLevelInput free s) ≤ js.count .cpu := by omega
  have hend := idle_of_work hinv hjs hwork
  obtain ⟨q', hdue'⟩ := due_run hinv hdue hjs
  rw [Due, hend] at hdue'
  exact ⟨hend, hdue'⟩

theorem one_frame_next :
    let s := Machine.run step (init (fun _ => ⟨false, true, true, 7, 0, 0⟩)
      fun _ => List.replicate ethRxBufSize 0) [.arrive [1, 2, 3, 4, 5], .dma]
    let s' := Machine.run step s (.input [0] :: .dma :: List.replicate 132000 .cpu)
    s'.pc = .idle ∧ s'.taken.length = s.taken.length + 1 := by
  have hfree : Input.Fits (.input [0]) := Nat.succ_le_succ (Nat.zero_le 4)
  refine input_takes_next _ (fun _ _ => List.length_replicate) (by simp [Input.Fits]) hfree rfl rfl
    (by decide) (fun j hj => ?_) ?_
  · rcases List.mem_cons.mp hj with rfl | hj
    · exact .inr trivial
    · exact .inl (List.eq_of_mem_replicate hj)
  · rw [List.count_cons_of_ne (by decide), List.count_replicate_self]
    simp only [ethRxBufNb, List.length_singleton]
    omega

end Receive
end PodFirmware
