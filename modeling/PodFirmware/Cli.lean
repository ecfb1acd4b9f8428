import Mathlib.Data.List.TakeWhile
import PodFirmware.CmdBadgerloop

/-!
# PodFirmware.Cli

`process_input`, which splits an input line at its blanks and runs the command that the first word
names. It works in the buffer it is given, be that the console's or the payload of a datagram.

* `splitBlanks`: the loop, on the buffer and the pointers into it.
* `splitArgs`: the words of a line.
* `map_str_starts`: the pointers point to the words.
* `dispatch`: the command that is run, and what is printed about its result.
* `arguments_join`: nothing of the line is lost in its arguments.
-/

namespace PodFirmware

open CString

/-- The bytes from a pointer on. -/
abbrev Memory := List UInt8

/-- The string at an offset. One that no NUL ends is taken to end with the memory. -/
def str (mem : Memory) (p : Nat) : Word := (mem.drop p).takeWhile (· != 0)

def maxArgs : Nat := 10

/-- The loop of `process_input` from index `i` on, with `left` characters to go. -/
def splitBlanks : (left i : Nat) → Memory → List Nat → Memory × List Nat
  | 0, _, buffer, args => (buffer, args)
  | left + 1, i, buffer, args =>
    let (buffer, args) :=
      if buffer[i]? = some 32 then (buffer.set i 0, args ++ [i + 1]) else (buffer, args)
    if args.length ≥ maxArgs then (buffer, args) else splitBlanks left (i + 1) buffer args

/-- An entry of the command table, over the state `S` that the commands change. -/
structure Command (S : Type) where
  name : String
  usage : String
  help : String
  fp : List Word → S → CommandStatus × S

section Dispatch

variable {S : Type}

/-- `strncmp` compares as many characters as the name has. -/
def getCommandIndex (names : List String) (command : Word) : Option Nat :=
  names.findIdx? fun name => (ascii name).isPrefixOf command

/-- The second half of `process_input`. The first word is what is left of the line in `buffer`. -/
def dispatch (commands : List (Command S)) (print : Word → S → S) (argv : List Word) (s : S) : S :=
  let buffer := argv.headD []
  match (getCommandIndex (commands.map (·.name)) buffer).bind (commands[·]?) with
  | some command =>
    match command.fp argv s with
    | (.fail, s) => print (buffer ++ ascii " failed\r\n") s
    | (.usage, s) => print (buffer ++ ascii " usage: " ++ ascii command.usage ++ ascii "\r\n") s
    | (.success, s) => s
  | none => print (ascii "unknown command: '" ++ buffer ++ ascii "' - try 'help'\r\n") s

def processInput (commands : List (Command S)) (print : Word → S → S) (buffer : Memory) (s : S) :
    Memory × S :=
  let (buffer, args) := splitBlanks (str buffer 0).length 0 buffer [0]
  (buffer, dispatch commands print (args.map (str buffer)) s)

end Dispatch

/-! ## Words -/

/-- The words of a line, at most `n + 1` of them; the last one takes the rest. -/
def splitArgs : Nat → Word → List Word
  | _, [] => [[]]
  | 0, w => [w]
  | n + 1, c :: w =>
    if c = 32 then [] :: splitArgs n w
    else
      match splitArgs (n + 1) w with
      | [] => [[c]]
      | arg :: args => (c :: arg) :: args

theorem splitArgs_ne_nil (n : Nat) (w : Word) : splitArgs n w ≠ [] := by
  unfold splitArgs
  split
  · simp
  · simp
  · split
    · simp
    · split <;> simp

theorem splitArgs_blank (n : Nat) (w : Word) :
    splitArgs (n + 1) (32 :: w) = [] :: splitArgs n w := if_pos rfl

/-- A character that is no blank joins the first word. -/
theorem splitArgs_char {c : UInt8} (hc : c ≠ 32) (n : Nat) (w : Word) :
    ∃ arg args, splitArgs (n + 1) w = arg :: args ∧
      splitArgs (n + 1) (c :: w) = (c :: arg) :: args := by
  obtain ⟨arg, args, hargs⟩ := List.exists_cons_of_ne_nil (splitArgs_ne_nil (n + 1) w)
  refine ⟨arg, args, hargs, ?_⟩
  rw [splitArgs, if_neg hc, hargs]

/-- The words with blanks between them are the line again. -/
theorem intercalate_splitArgs (n : Nat) (w : Word) : [32].intercalate (splitArgs n w) = w := by
  induction w generalizing n with
  | nil => simp [splitArgs]
  | cons c w ih =>
    cases n with
    | zero => simp [splitArgs]
    | succ n =>
      by_cases hc : c = 32
      · obtain ⟨arg, args, hargs⟩ := List.exists_cons_of_ne_nil (splitArgs_ne_nil n w)
        have hrest := ih n
        rw [hargs] at hrest
        rw [hc, splitArgs_blank, hargs, List.intercalate_cons_cons, hrest]
        rfl
      · obtain ⟨arg, args, hargs, hcons⟩ := splitArgs_char hc n w
        have hrest := ih (n + 1)
        rw [hargs] at hrest
        rw [hcons]
        cases args with
        | nil => simpa using hrest
        | cons arg' args =>
          rw [List.intercalate_cons_cons] at hrest
          simp only [List.intercalate_cons_cons, List.cons_append, hrest]

theorem splitArgs_injective (n : Nat) : Function.Injective (splitArgs n) := by
  intro w w' h
  rw [← intercalate_splitArgs n w, h, intercalate_splitArgs]

theorem head_splitArgs (n : Nat) (w : Word) :
    (splitArgs (n + 1) w).headD [] = w.takeWhile (· != 32) := by
  induction w with
  | nil => rfl
  | cons c w ih =>
    by_cases hc : c = 32
    · rw [hc, splitArgs_blank]
      rfl
    · obtain ⟨arg, args, hargs, hcons⟩ := splitArgs_char hc n w
      rw [hargs] at ih
      simpa [hc, hcons] using ih

theorem length_splitArgs (n : Nat) (w : Word) :
    (splitArgs n w).length = min (n + 1) (1 + w.count 32) := by
  induction w generalizing n with
  | nil => simp [splitArgs]
  | cons c w ih =>
    cases n with
    | zero => simp [splitArgs]
    | succ n =>
      by_cases hc : c = 32
      · rw [hc, splitArgs_blank, List.length_cons, ih n, List.count_cons_self]
        omega
      · obtain ⟨arg, args, hargs, hcons⟩ := splitArgs_char hc n w
        have hrest := ih (n + 1)
        rw [hargs] at hrest
        rw [hcons, List.count_cons_of_ne hc]
        exact hrest

/-- Only the last word takes blanks. -/
theorem blank_notMem_splitArgs (n : Nat) (w : Word) : ∀ a ∈ (splitArgs n w).dropLast, 32 ∉ a := by
  induction w generalizing n with
  | nil => simp [splitArgs]
  | cons c w ih =>
    cases n with
    | zero => simp [splitArgs]
    | succ n =>
      by_cases hc : c = 32
      · rw [hc, splitArgs_blank, List.dropLast_cons_of_ne_nil (splitArgs_ne_nil n w)]
        intro a ha
        rcases List.mem_cons.mp ha with rfl | ha
        · exact List.not_mem_nil
        · exact ih n a ha
      · obtain ⟨arg, args, hargs, hcons⟩ := splitArgs_char hc n w
        have hrest := ih (n + 1)
        rw [hargs] at hrest
        rw [hcons]
        cases args with
        | nil => simp
        | cons arg' args =>
          simp only [List.dropLast_cons_cons, List.forall_mem_cons] at hrest ⊢
          exact ⟨fun hmem => (List.mem_cons.mp hmem).elim (fun h => hc h.symm) hrest.1, hrest.2⟩

/-- The line as the loop leaves it: the first `n` blanks are NULs. -/
def cut : Nat → Word → Memory
  | _, [] => []
  | 0, w => w
  | n + 1, c :: w => if c = 32 then 0 :: cut n w else c :: cut (n + 1) w

/-- The pointers that the loop stores. -/
def starts : Nat → Nat → Word → List Nat
  | _, _, [] => []
  | 0, _, _ => []
  | n + 1, i, c :: w => if c = 32 then (i + 1) :: starts n (i + 1) w else starts (n + 1) (i + 1) w

@[simp] theorem cut_zero (w : Word) : cut 0 w = w := by cases w <;> rfl

@[simp] theorem starts_zero (i : Nat) (w : Word) : starts 0 i w = [] := by cases w <;> rfl

@[simp] theorem splitArgs_zero (w : Word) : splitArgs 0 w = [w] := by cases w <;> rfl

theorem splitBlanks_eq (n : Nat) (pre line stop : Memory) (args : List Nat)
    (hn : args.length + n + 1 = maxArgs) :
    splitBlanks line.length pre.length (pre ++ line ++ stop) args =
      (pre ++ cut (n + 1) line ++ stop, args ++ starts (n + 1) pre.length line) := by
  induction line generalizing n pre args with
  | nil => simp [splitBlanks, cut, starts]
  | cons c line ih =>
    have hget : (pre ++ c :: line ++ stop)[pre.length]? = some c := by simp
    have hset : (pre ++ c :: line ++ stop).set pre.length 0 = pre ++ [0] ++ line ++ stop := by simp
    have hkeep : pre ++ c :: line ++ stop = pre ++ [c] ++ line ++ stop := by simp
    rw [List.length_cons, splitBlanks, hget]
    by_cases hc : c = 32
    · subst hc
      simp only [if_true, hset, cut, starts]
      cases n with
      | zero => simp [maxArgs] at hn ⊢; omega
      | succ n =>
        rw [if_neg (by simp [maxArgs] at hn ⊢; omega)]
        have := ih n (pre ++ [0]) (args ++ [pre.length + 1]) (by simp; omega)
        simpa using this
    · have hne : ¬(some c = some (32 : UInt8)) := by simpa using hc
      simp only [if_neg hne, if_neg hc, cut, starts]
      rw [if_neg (by simp [maxArgs] at hn ⊢; omega), hkeep]
      have := ih n (pre ++ [c]) args hn
      simpa using this

theorem str_append_cons (pre rest : Memory) (c : UInt8) (hc : c ≠ 0) :
    str (pre ++ c :: rest) pre.length = c :: str (pre ++ [c] ++ rest) (pre.length + 1) := by
  have hdrop : (pre ++ [c] ++ rest).drop (pre.length + 1) = rest := by
    rw [List.drop_append_of_le_length (by simp)]
    simp
  rw [str, str, hdrop, List.drop_left]
  simp [hc]

/-- The pointers that are stored, in front of them the one to the start, point to the words. -/
theorem map_str_starts (n : Nat) (pre line stop : Memory) (hline : ∀ c ∈ line, c ≠ 0)
    (hstop : str stop 0 = []) :
    (pre.length :: starts n pre.length line).map (str (pre ++ cut n line ++ stop)) =
      splitArgs n line := by
  induction line generalizing n pre with
  | nil => simpa [starts, cut, splitArgs, str] using hstop
  | cons c line ih =>
    have hrest : ∀ d ∈ line, d ≠ 0 := fun d hd => hline d (List.mem_cons_of_mem _ hd)
    have hc0 : c ≠ 0 := hline c (List.mem_cons_self ..)
    cases n with
    | zero =>
      have htake : ((c :: line) ++ stop).takeWhile (· != 0) = c :: line := by
        rw [List.takeWhile_append_of_pos fun d hd => by simpa using hline d hd]
        simpa [str] using hstop
      simpa [str] using htake
    | succ n =>
      by_cases hc : c = 32
      · subst hc
        have hnext := ih n (pre ++ [0]) hrest
        have hempty : str (pre ++ 0 :: (cut n line ++ stop)) pre.length = [] := by simp [str]
        simp only [List.length_append, List.length_cons, List.length_nil, Nat.zero_add,
          List.append_assoc, List.cons_append, List.nil_append] at hnext
        simp only [starts, cut, splitArgs, if_true, List.map_cons, List.append_assoc,
          List.cons_append, hempty, ← hnext]
      · have hnext := ih (n + 1) (pre ++ [c]) hrest
        have hhead := str_append_cons pre (cut (n + 1) line ++ stop) c hc0
        simp only [List.length_append, List.length_cons, List.length_nil, Nat.zero_add,
          List.append_assoc, List.cons_append, List.nil_append, List.map_cons] at hnext hhead
        simp only [starts, cut, splitArgs, if_neg hc, List.map_cons, List.append_assoc,
          List.cons_append, hhead, ← hnext]

/-- The loop, as a whole: the pointers into what it leaves in the buffer are the words. -/
theorem map_str_splitBlanks (buffer : Memory) :
    (splitBlanks (str buffer 0).length 0 buffer [0]).2.map
      (str (splitBlanks (str buffer 0).length 0 buffer [0]).1) =
    splitArgs (maxArgs - 1) (str buffer 0) := by
  have hbuffer : buffer = [] ++ str buffer 0 ++ buffer.dropWhile (· != 0) := by
    simp [str, List.takeWhile_append_dropWhile]
  have hline : ∀ c ∈ str buffer 0, c ≠ 0 := by
    intro c hc
    simpa using List.mem_takeWhile_imp hc
  have hstop : str (buffer.dropWhile (· != 0)) 0 = [] := by
    rw [str, List.drop_zero]
    cases h : buffer.dropWhile (· != 0) with
    | nil => rfl
    | cons c rest =>
      have hc := List.head_dropWhile_not (p := (· != 0)) (l := buffer) (by simp [h])
      simp only [h, List.head_cons] at hc
      exact List.takeWhile_cons_of_neg (by simp [hc])
  have hloop := splitBlanks_eq 8 [] (str buffer 0) (buffer.dropWhile (· != 0)) [0] (by rfl)
  rw [← hbuffer, List.length_nil] at hloop
  rw [hloop]
  exact map_str_starts 9 [] (str buffer 0) (buffer.dropWhile (· != 0)) hline hstop

/-- What `process_input` does depends on the line alone: the bytes in front of the first NUL. -/
theorem processInput_eq_dispatch {S : Type} (commands : List (Command S)) (print : Word → S → S)
    (buffer : Memory) (s : S) :
    (processInput commands print buffer s).2 =
      dispatch commands print (splitArgs (maxArgs - 1) (str buffer 0)) s :=
  congrArg (dispatch commands print · s) (map_str_splitBlanks buffer)

/-- Splitting loses nothing: joined by blanks, the arguments that the command gets are the line.
There are at most ten of them, and only the last one has blanks in it. -/
theorem arguments_join (buffer : Memory) :
    let line := str buffer 0
    let r := splitBlanks line.length 0 buffer [0]
    let args := r.2.map (str r.1)
    r.2.length = min maxArgs (1 + line.count 32) ∧ [32].intercalate args = line ∧
      (∀ a ∈ args.dropLast, 32 ∉ a) ∧
      ∀ (S : Type) (commands : List (Command S)) (print : Word → S → S) (s : S),
        (processInput commands print buffer s).2 = dispatch commands print args s := by
  intro line r args
  have hargs : args = splitArgs (maxArgs - 1) line := map_str_splitBlanks buffer
  have hlen : r.2.length = args.length := (List.length_map _).symm
  refine ⟨?_, ?_, ?_, fun _ _ _ _ => rfl⟩
  · rw [hlen, hargs, length_splitArgs]
    rfl
  · rw [hargs, intercalate_splitArgs]
  · rw [hargs]
    exact blank_notMem_splitArgs _ _

end PodFirmware
