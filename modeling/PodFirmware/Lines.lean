import Mathlib.Data.List.Chain
import Mathlib.Data.List.TakeWhile
import PodFirmware.Messages

/-!
# PodFirmware.Lines

The lines of a stream of characters, and what the console makes of the stream. A line ends with CR,
LF or both. `pc_buffer_getMessage` knows no pairs: each call starts with no previous character. The
interrupt handler does, and does not count the second character of a pair.

* `lines`: the lines of a stream.
* `messages`: the messages that calls of `pc_buffer_getMessage` find in a queue.
* `counted`: how many line ends the handler counts.
* `passed`: the strings given to `process_input`.
* `passed_lines_iff`: when as many messages as are counted make up the lines.
-/

namespace PodFirmware
namespace Console

def opposite (c d : UInt8) : Bool := (c == 13 && d == 10) || (c == 10 && d == 13)

/-- The lines of a stream; `cur` is what has been read of the first. -/
def lines (cur : List UInt8) : List UInt8 → List (List UInt8)
  | [] => []
  | [c] => if isTerm c then [cur] else []
  | c :: d :: q =>
    if opposite c d then cur :: lines [] q
    else if isTerm c then cur :: lines [] (d :: q)
    else lines (cur ++ [c]) (d :: q)

/-- The messages in a queue, and what is left after them; `part` has been read of the first. -/
def messages (part : List UInt8) : List UInt8 → List (List UInt8) × List UInt8
  | [] => ([], part)
  | c :: q =>
    if isTerm c then (part :: (messages [] q).1, (messages [] q).2) else messages (part ++ [c]) q

def counted (prev : UInt8) : List UInt8 → Nat
  | [] => 0
  | c :: q => (if newlineGuard prev c then 1 else 0) + counted c q

/-- A message is taken up to its first NUL, and not at all if that is nothing. -/
def passed (ms : List (List UInt8)) : List (List UInt8) :=
  (ms.map (·.takeWhile (· != 0))).filter (· ≠ [])

/-- No line end follows after a pair of opposite ones. -/
def pairLast : List UInt8 → Bool
  | c :: d :: q => if opposite c d then q.all (!isTerm ·) else pairLast (d :: q)
  | _ => true

/-! ## Messages -/

section Messages

variable (part : List UInt8) (q q' : List UInt8)

theorem messages_term {c : UInt8} (hc : isTerm c = true) :
    messages part (c :: q) = (part :: (messages [] q).1, (messages [] q).2) := if_pos hc

theorem messages_char {c : UInt8} (hc : ¬ isTerm c = true) :
    messages part (c :: q) = messages (part ++ [c]) q := if_neg hc

theorem messages_append : messages part (q ++ q') =
    ((messages part q).1 ++ (messages (messages part q).2 q').1,
      (messages (messages part q).2 q').2) := by
  induction q generalizing part with
  | nil => rfl
  | cons c q ih =>
    rw [List.cons_append]
    by_cases hc : isTerm c = true
    · rw [messages_term _ _ hc, messages_term _ _ hc, ih []]
      rfl
    · rw [messages_char _ _ hc, messages_char _ _ hc, ih]

theorem length_messages : (messages part q).1.length = q.countP isTerm := by
  induction q generalizing part with
  | nil => rfl
  | cons c q ih =>
    rw [messages, List.countP_cons]
    split
    · rw [List.length_cons, ih]
    · exact ih _

theorem messages_concat_term {c : UInt8} (hc : isTerm c = true) :
    messages part (q ++ [c]) = ((messages part q).1 ++ [(messages part q).2], []) := by
  rw [messages_append, messages_term _ _ hc]
  rfl

theorem messages_concat_char {c : UInt8} (hc : ¬ isTerm c = true) :
    messages part (q ++ [c]) = ((messages part q).1, (messages part q).2 ++ [c]) := by
  rw [messages_append, messages_char _ _ hc, messages, List.append_nil]

variable {q}

theorem messages_of_free (h : q.countP isTerm = 0) : messages part q = ([], part ++ q) := by
  induction q generalizing part with
  | nil => rw [messages, List.append_nil]
  | cons c q ih =>
    rw [List.countP_cons] at h
    have hc : ¬ isTerm c = true := by
      intro hc
      rw [if_pos hc] at h
      omega
    rw [messages_char _ _ hc, ih _ (by omega), List.append_assoc, List.singleton_append]

/-- The messages have no line end. -/
theorem isTerm_of_mem_messages (hpart : ∀ d ∈ part, isTerm d = false) :
    ∀ m ∈ (messages part q).1, ∀ d ∈ m, isTerm d = false := by
  induction q generalizing part with
  | nil => exact fun m hm => absurd hm List.not_mem_nil
  | cons c q ih =>
    by_cases hc : isTerm c = true
    · rw [messages_term _ _ hc]
      exact List.forall_mem_cons.mpr ⟨hpart, ih [] fun d hd => absurd hd List.not_mem_nil⟩
    · rw [messages_char _ _ hc]
      refine ih _ (List.forall_mem_append.mpr ⟨hpart, ?_⟩)
      exact List.forall_mem_singleton.mpr (Bool.eq_false_iff.mpr hc)

end Messages

/-! ## Pairs -/

theorem newlineGuard_iff (prev c : UInt8) :
    newlineGuard prev c = true ↔ isTerm c = true ∧ opposite prev c = false := by
  simp only [newlineGuard, isTerm, opposite, Bool.or_eq_true, Bool.and_eq_true, beq_iff_eq,
    bne_iff_ne, Bool.or_eq_false_iff, Bool.and_eq_false_iff, beq_eq_false_iff_ne]
  have hne : (10 : UInt8) ≠ 13 := by decide
  grind

theorem isTerm_of_opposite {c d : UInt8} (h : opposite c d = true) :
    isTerm c = true ∧ isTerm d = true := by
  simp only [opposite, isTerm, Bool.or_eq_true, Bool.and_eq_true, beq_iff_eq] at h ⊢
  exact ⟨h.symm.imp And.left And.left, h.imp And.right And.right⟩

/-- No two opposite line ends are next to each other. -/
def Apart (q : List UInt8) : Prop := q.IsChain fun c d => opposite c d = false

theorem counted_append (prev : UInt8) (q q' : List UInt8) :
    counted prev (q ++ q') = counted prev q + counted (q.getLastD prev) q' := by
  induction q generalizing prev with
  | nil => rw [List.nil_append, counted, Nat.zero_add, List.getLastD_nil]
  | cons c q ih => rw [List.cons_append, counted, counted, ih, List.getLastD_cons, Nat.add_assoc]

theorem counted_le (prev : UInt8) (q : List UInt8) : counted prev q ≤ q.countP isTerm := by
  induction q generalizing prev with
  | nil => exact Nat.le_refl _
  | cons c q ih =>
    have hle := ih c
    have hguard : (if newlineGuard prev c then 1 else 0) ≤ if isTerm c then 1 else 0 := by
      split
      · rename_i hg
        rw [if_pos (isTerm_of_newlineGuard hg)]
      · exact Nat.zero_le _
    rw [counted, List.countP_cons]
    omega

theorem counted_of_apart {prev : UInt8} {q : List UInt8} (h : Apart (prev :: q)) :
    counted prev q = q.countP isTerm := by
  induction q generalizing prev with
  | nil => rfl
  | cons c q ih =>
    obtain ⟨hpair, hrest⟩ := List.isChain_cons_cons.mp h
    have hguard : newlineGuard prev c = isTerm c := by
      rw [Bool.eq_iff_iff, newlineGuard_iff, and_iff_left hpair]
    rw [counted, List.countP_cons, ih hrest, hguard, Nat.add_comm]

theorem counted_cons_of_opposite {c d : UInt8} (h : opposite c d = true) (q : List UInt8) :
    counted c (d :: q) = counted d q := by
  have hguard : ¬ newlineGuard c d = true := by
    intro hg
    rw [((newlineGuard_iff c d).mp hg).2] at h
    cases h
  rw [counted, if_neg hguard, Nat.zero_add]

/-- No more line ends are counted than there are lines. -/
theorem counted_le_lines (prev : UInt8) (cur q : List UInt8) :
    counted prev q ≤ (lines cur q).length := by
  fun_induction lines cur q generalizing prev with
  | case1 cur => exact Nat.le_refl _
  | case2 cur c hc =>
    rw [counted, counted, List.length_singleton]
    split <;> omega
  | case3 cur c hc =>
    have hle := counted_le prev [c]
    rwa [List.countP_singleton, if_neg hc] at hle
  | case4 cur c d q hpair ih =>
    have hle := ih d
    rw [counted, counted_cons_of_opposite hpair, List.length_cons]
    split <;> omega
  | case5 cur c d q hpair hc ih =>
    have hle := ih c
    rw [counted, List.length_cons]
    split <;> omega
  | case6 cur c d q hpair hc ih =>
    have hguard : ¬ newlineGuard prev c = true := fun hg => hc (isTerm_of_newlineGuard hg)
    rw [counted, if_neg hguard, Nat.zero_add]
    exact ih c

theorem length_lines_le (cur q : List UInt8) : (lines cur q).length ≤ q.countP isTerm := by
  fun_induction lines cur q with
  | case1 cur => exact Nat.zero_le _
  | case2 cur c hc => rw [List.countP_singleton, if_pos hc, List.length_singleton]
  | case3 cur c hc => exact Nat.zero_le _
  | case4 cur c d q hpair ih =>
    rw [List.length_cons, List.countP_cons, List.countP_cons, if_pos (isTerm_of_opposite hpair).1]
    omega
  | case5 cur c d q hpair hc ih =>
    rw [List.length_cons, List.countP_cons, if_pos hc]
    omega
  | case6 cur c d q hpair hc ih =>
    rw [List.countP_cons, if_neg hc]
    exact ih

theorem lines_ne_nil {cur q : List UInt8} (h : 0 < q.countP isTerm) : lines cur q ≠ [] := by
  fun_induction lines cur q with
  | case1 cur => cases h
  | case2 cur c hc => exact List.cons_ne_nil _ _
  | case3 cur c hc =>
    rw [List.countP_singleton, if_neg hc] at h
    cases h
  | case4 cur c d q hpair ih => exact List.cons_ne_nil _ _
  | case5 cur c d q hpair hc ih => exact List.cons_ne_nil _ _
  | case6 cur c d q hpair hc ih =>
    rw [List.countP_cons, if_neg hc] at h
    exact ih h

/-- Up to the first pair, lines are messages, and the pair ends one line. -/
theorem lines_append_pair {cur pre post : List UInt8} {c d : UInt8} (h : Apart (pre ++ [c]))
    (hpair : opposite c d = true) :
    lines cur (pre ++ c :: d :: post) = (messages cur (pre ++ [c])).1 ++ lines [] post := by
  induction pre generalizing cur with
  | nil =>
    rw [List.nil_append, lines, if_pos hpair, List.nil_append,
      messages_term _ _ (isTerm_of_opposite hpair).1]
    rfl
  | cons x pre ih =>
    obtain ⟨y, pre', hy⟩ : ∃ y pre', pre ++ [c] = y :: pre' := by
      cases pre with
      | nil => exact ⟨c, [], rfl⟩
      | cons y pre => exact ⟨y, pre ++ [c], rfl⟩
    have hsplit (q : List UInt8) : pre ++ c :: q = y :: (pre' ++ q) := by
      rw [List.append_cons, hy, List.cons_append]
    rw [List.cons_append, hy] at h
    obtain ⟨hx, hrest⟩ := List.isChain_cons_cons.mp h
    rw [← hy] at hrest
    rw [List.cons_append, hsplit, lines, if_neg (by simp [hx]), List.cons_append, ← hsplit]
    by_cases hc : isTerm x = true
    · rw [if_pos hc, messages_term _ _ hc, ih hrest]
      rfl
    · rw [if_neg hc, messages_char _ _ hc, ih hrest]

theorem lines_of_apart {cur q : List UInt8} (h : Apart q) :
    lines cur q = (messages cur q).1 := by
  fun_induction lines cur q with
  | case1 cur => rfl
  | case2 cur c hc => rw [messages, if_pos hc]; rfl
  | case3 cur c hc => rw [messages, if_neg hc]; rfl
  | case4 cur c d q hpair ih =>
    rw [(List.isChain_cons_cons.mp h).1] at hpair
    cases hpair
  | case5 cur c d q hpair hc ih =>
    rw [ih (List.isChain_cons_cons.mp h).2, messages_term _ _ hc]
  | case6 cur c d q hpair hc ih =>
    rw [ih (List.isChain_cons_cons.mp h).2, messages_char _ _ hc]

theorem apart_or_pair (q : List UInt8) : Apart q ∨
    ∃ pre c d post, q = pre ++ c :: d :: post ∧ opposite c d = true ∧ Apart (pre ++ [c]) := by
  induction q with
  | nil => exact .inl .nil
  | cons c q ih =>
    cases q with
    | nil => exact .inl (.singleton c)
    | cons d q =>
      cases hpair : opposite c d with
      | true => exact .inr ⟨[], c, d, q, rfl, hpair, .singleton c⟩
      | false =>
        obtain hapart | ⟨pre, x, y, post, he, hxy, hapart⟩ := ih
        · exact .inl (List.isChain_cons_cons.mpr ⟨hpair, hapart⟩)
        · refine .inr ⟨c :: pre, x, y, post, by rw [he]; rfl, hxy, ?_⟩
          cases pre with
          | nil =>
            obtain ⟨rfl, -⟩ := List.cons.inj he
            exact List.isChain_cons_cons.mpr ⟨hpair, hapart⟩
          | cons z pre =>
            obtain ⟨rfl, -⟩ := List.cons.inj he
            exact List.isChain_cons_cons.mpr ⟨hpair, hapart⟩

theorem pairLast_of_apart {q : List UInt8} (h : Apart q) : pairLast q = true := by
  induction q with
  | nil => rfl
  | cons c q ih =>
    cases q with
    | nil => rfl
    | cons d q =>
      obtain ⟨hpair, hrest⟩ := List.isChain_cons_cons.mp h
      rw [pairLast, if_neg (by simp [hpair])]
      exact ih hrest

theorem pairLast_append_pair {pre post : List UInt8} {c d : UInt8} (h : Apart (pre ++ [c]))
    (hpair : opposite c d = true) :
    pairLast (pre ++ c :: d :: post) = true ↔ post.countP isTerm = 0 := by
  induction pre with
  | nil =>
    rw [List.nil_append, pairLast, if_pos hpair, List.countP_eq_zero, List.all_eq_true]
    simp only [Bool.not_eq_true']
    exact forall₂_congr fun _ _ => Bool.eq_false_iff
  | cons x pre ih =>
    cases pre with
    | nil =>
      obtain ⟨hx, hrest⟩ := List.isChain_cons_cons.mp h
      rw [List.cons_append, List.nil_append, pairLast, if_neg (by simp [hx])]
      exact ih hrest
    | cons y pre =>
      obtain ⟨hx, hrest⟩ := List.isChain_cons_cons.mp h
      rw [List.cons_append, List.cons_append, pairLast, if_neg (by simp [hx])]
      exact ih hrest

/-! ## What is passed -/

theorem passed_eq_iff (ms : List (List UInt8)) :
    passed ms = ms.filter (· ≠ []) ↔ ∀ m ∈ ms, 0 ∉ m := by
  constructor
  · intro h m hm hzero
    have hmem : m ∈ passed ms := by
      rw [h, List.mem_filter]
      exact ⟨hm, by simpa using List.ne_nil_of_mem hzero⟩
    obtain ⟨m', -, rfl⟩ := List.mem_map.mp (List.mem_filter.mp hmem).1
    exact absurd (List.mem_takeWhile_imp hzero) (by decide)
  · intro h
    have hid : ms.map (·.takeWhile (· != 0)) = ms.map id := by
      refine List.map_congr_left fun m hm => List.takeWhile_eq_self_iff.mpr fun c hc => ?_
      exact bne_iff_ne.mpr fun hzero => h m hm (hzero ▸ hc)
    rw [passed, hid, List.map_id]

theorem passed_concat (ms : List (List UInt8)) (m : List UInt8) : passed (ms ++ [m]) =
    if m.takeWhile (· != 0) = [] then passed ms else passed ms ++ [m.takeWhile (· != 0)] := by
  rw [passed, List.map_append, List.filter_append, List.map_singleton, List.filter_cons,
    List.filter_nil]
  split
  · rename_i hne
    rw [if_neg (by simpa using hne)]
    rfl
  · rename_i hnil
    rw [if_pos (by simpa using hnil), List.append_nil]
    rfl

theorem counted_zero_of_apart {q : List UInt8} (h : Apart q) : counted 0 q = q.countP isTerm := by
  cases q with
  | nil => rfl
  | cons c q =>
    refine counted_of_apart (List.isChain_cons_cons.mpr ⟨?_, h⟩)
    simp [opposite]

theorem counted_append_pair {pre post : List UInt8} {c d : UInt8} (h : Apart (pre ++ [c]))
    (hpair : opposite c d = true) :
    counted 0 (pre ++ c :: d :: post) = (pre ++ [c]).countP isTerm + counted d post := by
  rw [List.append_cons, counted_append, counted_zero_of_apart h, List.getLastD_concat,
    counted_cons_of_opposite hpair]

/-- What has been taken ends in front of the second character of a pair, or behind it. -/
theorem pair_cases {pre post done waiting : List UInt8} {c d : UInt8}
    (h : pre ++ c :: d :: post = done ++ waiting) :
    (∃ more, pre ++ [c] = done ++ more) ∨
      ∃ more, done = pre ++ c :: d :: more ∧ post = more ++ waiting := by
  rw [List.append_cons] at h
  obtain ⟨more, hmore, hrest⟩ | ⟨more, hmore, -⟩ := List.append_eq_append_iff.mp h
  · cases more with
    | nil => exact .inl ⟨[], by rw [hmore, List.append_nil, List.append_nil]⟩
    | cons x more =>
      obtain ⟨rfl, hpost⟩ := List.cons.inj hrest
      exact .inr ⟨more, by rw [hmore, ← List.append_cons], hpost⟩
  · exact .inl ⟨more, hmore⟩

section Passed

variable {bs done waiting : List UInt8}

/-- If nothing follows after the first pair, what is counted are the lines. -/
theorem lines_of_pairLast (hbs : bs = done ++ waiting)
    (hcount : (messages [] done).1.length = counted 0 bs) (h : pairLast bs = true) :
    lines [] done = (messages [] done).1 ∧ lines [] bs = (messages [] done).1 := by
  rw [length_messages] at hcount
  obtain hapart | ⟨pre, c, d, post, hpair, hcd, hapart⟩ := apart_or_pair bs
  · have hfree : waiting.countP isTerm = 0 := by
      rw [counted_zero_of_apart hapart, hbs, List.countP_append] at hcount
      omega
    have hdone : Apart done := by
      rw [hbs] at hapart
      exact hapart.left_of_append
    refine ⟨lines_of_apart hdone, ?_⟩
    rw [lines_of_apart hapart, hbs, messages_append, messages_of_free _ hfree, List.append_nil]
  · have hpost : post.countP isTerm = 0 := by
      rwa [hpair, pairLast_append_pair hapart hcd] at h
    have hzero : counted d post = 0 := by
      have hle := counted_le d post
      omega
    have hnil : lines [] post = [] := by
      have hle := length_lines_le [] post
      exact List.length_eq_zero_iff.mp (by omega)
    rw [hpair, counted_append_pair hapart hcd, hzero, Nat.add_zero] at hcount
    have hdone : done = pre ++ [c] := by
      obtain ⟨more, hmore⟩ | ⟨more, hmore, -⟩ := pair_cases (hpair.symm.trans hbs)
      · cases more using List.reverseRecOn with
        | nil => rw [hmore, List.append_nil]
        | append_singleton more x =>
          obtain ⟨-, rfl⟩ : _ ∧ c = x := by
            rw [← List.append_assoc] at hmore
            exact List.append_inj' hmore rfl |>.imp_right (List.singleton_inj.mp ·)
          rw [hmore, List.countP_append, List.countP_append, List.countP_singleton,
            if_pos (isTerm_of_opposite hcd).1] at hcount
          omega
      · rw [hmore, List.append_cons, List.countP_append, List.countP_cons,
          if_pos (isTerm_of_opposite hcd).2] at hcount
        omega
    rw [hdone]
    refine ⟨lines_of_apart hapart, ?_⟩
    rw [hpair, lines_append_pair hapart hcd, hnil, List.append_nil]

/-- If a line end follows after a pair, a line is left. -/
theorem pairLast_of_lines (hbs : bs = done ++ waiting)
    (hcount : (messages [] done).1.length = counted 0 bs) (h : lines [] done = lines [] bs) :
    pairLast bs = true := by
  rw [length_messages] at hcount
  obtain hapart | ⟨pre, c, d, post, hpair, hcd, hapart⟩ := apart_or_pair bs
  · exact pairLast_of_apart hapart
  · rw [hpair, pairLast_append_pair hapart hcd]
    rw [hpair, counted_append_pair hapart hcd] at hcount
    have hlen := congrArg List.length h
    rw [hpair, lines_append_pair hapart hcd, List.length_append, length_messages] at hlen
    have hle := counted_le_lines d [] post
    obtain ⟨more, hmore⟩ | ⟨more, hmore, -⟩ := pair_cases (hpair.symm.trans hbs)
    · have hdone := length_lines_le [] done
      have hmore' : (pre ++ [c]).countP isTerm = done.countP isTerm + more.countP isTerm := by
        rw [hmore, List.countP_append]
      by_contra hpost
      have hne : lines [] post ≠ [] := lines_ne_nil (Nat.pos_of_ne_zero hpost)
      have hpos := List.length_pos_iff.mpr hne
      omega
    · rw [hmore, lines_append_pair hapart hcd, List.length_append, length_messages] at hlen
      rw [hmore, List.append_cons, List.countP_append, List.countP_cons,
        if_pos (isTerm_of_opposite hcd).2] at hcount
      have hdone := length_lines_le [] more
      omega

theorem passed_lines_iff (hbs : bs = done ++ waiting)
    (hcount : (messages [] done).1.length = counted 0 bs) :
    (passed (messages [] done).1 = (lines [] bs).filter (· ≠ []) ∧ lines [] done = lines [] bs) ↔
      pairLast bs = true ∧ ∀ l ∈ lines [] bs, 0 ∉ l := by
  constructor
  · rintro ⟨hpassed, hlines⟩
    have hlast := pairLast_of_lines hbs hcount hlines
    obtain ⟨-, hmessages⟩ := lines_of_pairLast hbs hcount hlast
    rw [← hmessages] at hpassed
    exact ⟨hlast, (passed_eq_iff _).mp hpassed⟩
  · rintro ⟨hlast, hzero⟩
    obtain ⟨hdone, hmessages⟩ := lines_of_pairLast hbs hcount hlast
    rw [← hmessages] at hdone ⊢
    exact ⟨(passed_eq_iff _).mpr hzero, hdone⟩

end Passed

end Console
end PodFirmware
