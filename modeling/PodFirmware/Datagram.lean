import PodFirmware.Arguments

/-!
# PodFirmware.Datagram

`udp_echo_recv`, which the network stack calls for every datagram of the dashboard. It takes the
payload for a C string, but neither the sender nor the driver puts a NUL behind it: without one in
the datagram, the string goes on with what the buffer held before.

* `udpEchoRecv`: the response to a query, or a command line.
* `OwnBytes`, `SameCommand`: what follows the datagram in memory makes no difference, to anything or
  to the command that is run.
* `ownBytes_iff`: the datagrams of which that is true.
-/

namespace PodFirmware

open CString

/-! ## The code -/

def outgoingQuery : UInt8 := 1
def dashResponse : UInt8 := 2

def isResponse (payload : Memory) : Bool := str payload 0 = ascii "new phone who dis"

/-- A response counts while a query is out. `flags` is `badgerloop_flags`. -/
def noteResponse (flags : UInt8) : UInt8 :=
  if flags &&& outgoingQuery ≠ 0 then flags ||| dashResponse else flags

/-- The buffer is not looked at again after the call. -/
def udpEchoRecv (board : Board) (payload : Memory) (flags : UInt8) (s : Shell) : UInt8 × Shell :=
  if isResponse payload then (noteResponse flags, s)
  else
    let s := s.print (str payload 0 ++ ascii "\r\n")
    let s := (processInput (podCommands board) Shell.print payload s).2
    (flags, s.print (ascii "=> "))

/-! ## The string in the buffer -/

theorem str_append {data : Memory} (h : 0 ∉ data) (rest : Memory) :
    str (data ++ rest) 0 = data ++ str rest 0 :=
  takeWhile_append_of_not_mem h rest

theorem str_append_of_mem {data : Memory} (h : 0 ∈ data) (rest : Memory) :
    str (data ++ rest) 0 = str data 0 :=
  takeWhile_append_of_mem h rest

theorem str_of_not_mem {w : Word} (h : 0 ∉ w) : str w 0 = w := takeWhile_of_not_mem h

theorem udpEchoRecv_congr {board : Board} {payload payload' : Memory} {flags : UInt8} {s : Shell}
    (h : str payload 0 = str payload' 0) :
    udpEchoRecv board payload flags s = udpEchoRecv board payload' flags s := by
  simp only [udpEchoRecv, isResponse, processInput_eq_dispatch, h]

/-! ## What is printed -/

theorem dispatch_printed {board : Board} {argv : List Word} {s : Shell} :
    s.printed <+: (dispatch (podCommands board) Shell.print argv s).printed := by
  rw [dispatch, podCommands_find]
  cases entryOf argv with
  | none => exact List.prefix_append _ _
  | some entry =>
    have hrun : (entry.2.2.2.run board entry.1 argv s).2.printed = s.printed := by
      unfold Handler.run
      dsimp only
      split <;> rfl
    simp only [Option.map_some]
    rw [← hrun]
    generalize entry.2.2.2.run board entry.1 argv s = result
    obtain ⟨status, s'⟩ := result
    cases status
    · exact List.prefix_rfl
    · exact List.prefix_append _ _
    · exact List.prefix_append _ _

/-- The string is printed before anything is done about it. -/
theorem udpEchoRecv_printed (board : Board) {payload : Memory} (flags : UInt8) {s : Shell}
    (h : isResponse payload = false) :
    s.printed ++ [str payload 0 ++ ascii "\r\n"] <+:
      (udpEchoRecv board payload flags s).2.printed := by
  simp only [udpEchoRecv, h, Bool.false_eq_true, if_false, processInput_eq_dispatch]
  exact (dispatch_printed (s := s.print (str payload 0 ++ ascii "\r\n"))).trans
    (List.prefix_append _ _)

/-! ## Leftovers -/

/-- Whatever lies behind the datagram, the same is done. -/
def OwnBytes (board : Board) (data : Memory) : Prop :=
  ∀ rest rest' flags s,
    udpEchoRecv board (data ++ rest) flags s = udpEchoRecv board (data ++ rest') flags s

/-- A letter that the response does not end with. -/
theorem isResponse_append_letter (data : Memory) (h : 0 ∉ data) :
    isResponse (data ++ [65]) = false := by
  rw [isResponse, str_append h]
  simp only [decide_eq_false_iff_not]
  intro heq
  have := congrArg List.getLast? heq
  have hstr : str [65] 0 = [65] := rfl
  rw [hstr, List.getLast?_concat] at this
  revert this
  decide

theorem ownBytes_iff_mem (board : Board) (data : Memory) : OwnBytes board data ↔ 0 ∈ data := by
  constructor
  · intro hown
    by_contra hnul
    have hsame := congrArg (·.2.printed) (hown [65] [] 0 { pod := boot })
    have hext := udpEchoRecv_printed board 0 (s := { pod := boot })
      (isResponse_append_letter data hnul)
    rw [hsame, str_append hnul] at hext
    cases hdata : isResponse (data ++ []) with
    | true =>
      simp only [udpEchoRecv, hdata, if_true] at hext
      simpa using hext.length_le
    | false =>
      have hown := udpEchoRecv_printed board 0 (s := { pod := boot }) hdata
      rw [str_append hnul] at hown
      have heq := List.prefix_of_prefix_length_le hext hown (by simp)
      simp [str] at heq
  · intro hnul rest rest' flags s
    exact udpEchoRecv_congr
      ((str_append_of_mem hnul rest).trans (str_append_of_mem hnul rest').symm)

/-- The command that a payload runs, with its arguments. -/
def callOf (payload : Memory) : Option (String × List Word) :=
  if isResponse payload then none
  else
    let argv := splitArgs (maxArgs - 1) (str payload 0)
    (commandOf argv).map (·, argv)

/-- The decision about the response and the command are the same whatever lies behind the
datagram. -/
def SameCommand (data : Memory) : Prop :=
  ∀ rest rest', isResponse (data ++ rest) = isResponse (data ++ rest') ∧
    callOf (data ++ rest) = callOf (data ++ rest')

/-- No bytes that follow turn the string into the response, and none make its first word one that
begins with the name of a command. -/
def Settled (data : Word) : Prop :=
  ¬data <+: ascii "new phone who dis" ∧
    ∀ name ∈ handlers.map (·.1),
      ¬ascii name <+: data.takeWhile (· != 32) ∧ (32 ∈ data ∨ ¬data <+: ascii name)

theorem commandOf_eq_none_iff {argv : List Word} :
    commandOf argv = none ↔ ∀ name ∈ handlers.map (·.1), ¬ascii name <+: argv.headD [] := by
  rw [commandOf, Option.map_eq_none_iff, entryOf, Option.bind_eq_none_iff]
  constructor
  · intro h name hname hpre
    cases hi : getCommandIndex (handlers.map (·.1)) (argv.headD []) with
    | none =>
      have := List.findIdx?_eq_none_iff.mp hi name hname
      rw [← List.isPrefixOf_iff_prefix, this] at hpre
      cases hpre
    | some i =>
      obtain ⟨hlt, -⟩ := List.findIdx?_eq_some_iff_findIdx_eq.mp hi
      have := List.getElem?_eq_none_iff.mp (h i hi)
      rw [List.length_map] at hlt
      omega
  · intro h i hi
    obtain ⟨hlt, hpre, -⟩ := List.findIdx?_eq_some_iff_getElem.mp hi
    exact absurd (List.isPrefixOf_iff_prefix.mp hpre) (h _ (List.getElem_mem hlt))

theorem takeWhile_prefix_append (w w' : Word) :
    w.takeWhile (· != 32) <+: (w ++ w').takeWhile (· != 32) := by
  rw [List.takeWhile_append]
  split
  · next hlen => exact (List.takeWhile_prefix _).trans (List.prefix_append _ _)
  · exact List.prefix_rfl

theorem callOf_of_settled {data : Memory} (h : Settled data) (h0 : 0 ∉ data) (rest : Memory) :
    isResponse (data ++ rest) = false ∧ callOf (data ++ rest) = none := by
  have hresponse : isResponse (data ++ rest) = false := by
    rw [isResponse, str_append h0]
    simp only [decide_eq_false_iff_not]
    intro heq
    exact h.1 (heq ▸ List.prefix_append _ _)
  refine ⟨hresponse, ?_⟩
  rw [callOf, hresponse, str_append h0]
  simp only [Bool.false_eq_true, if_false, Option.map_eq_none_iff, commandOf_eq_none_iff]
  intro name hname hpre
  obtain ⟨hfirst, hlast⟩ := h.2 name hname
  rw [maxArgs, head_splitArgs] at hpre
  by_cases hblank : 32 ∈ data
  · rw [takeWhile_append_of_mem hblank] at hpre
    exact hfirst hpre
  · have hword : data.takeWhile (· != 32) = data := takeWhile_of_not_mem hblank
    have hline := hpre.trans (List.takeWhile_prefix _)
    rcases List.prefix_or_prefix_of_prefix hline (List.prefix_append data _) with hle | hle
    · rw [hword] at hfirst
      exact hfirst hle
    · exact hlast.resolve_left hblank hle

theorem command_not_response : ∀ name ∈ handlers.map (·.1),
    ¬ascii name <+: (ascii "new phone who dis").takeWhile (· != 32) := by
  decide

theorem command_plain : ∀ name ∈ handlers.map (·.1),
    0 ∉ ascii name ∧ (ascii name).takeWhile (· != 32) = ascii name := by
  decide

/-- A letter more makes the last argument another one. -/
theorem callOf_append_letter {line : Word} {name : String} (h0 : 0 ∉ line)
    (hname : name ∈ handlers.map (·.1)) (hfirst : ascii name <+: line.takeWhile (· != 32)) :
    callOf line ≠ callOf (line ++ [65]) := by
  have hcall : ∀ w : Word, 0 ∉ w → ascii name <+: w.takeWhile (· != 32) →
      ∃ c, callOf w = some (c, splitArgs (maxArgs - 1) w) := by
    intro w hw hpre
    have hresponse : isResponse w = false := by
      rw [isResponse, str_of_not_mem hw]
      simp only [decide_eq_false_iff_not]
      rintro rfl
      exact command_not_response name hname hpre
    have hsome : commandOf (splitArgs (maxArgs - 1) w) ≠ none := by
      rw [Ne, commandOf_eq_none_iff, maxArgs, head_splitArgs]
      exact fun h => h name hname hpre
    obtain ⟨c, hc⟩ := Option.ne_none_iff_exists'.mp hsome
    refine ⟨c, ?_⟩
    rw [callOf, hresponse, str_of_not_mem hw]
    simp [hc]
  obtain ⟨c, hc⟩ := hcall line h0 hfirst
  obtain ⟨c', hc'⟩ := hcall (line ++ [65]) (by simp [h0])
    (hfirst.trans (takeWhile_prefix_append line [65]))
  rw [hc, hc']
  intro heq
  injection heq with heq
  injection heq with _ hargs
  simpa using splitArgs_injective _ hargs

theorem sameCommand_iff (data : Memory) : SameCommand data ↔ 0 ∈ data ∨ Settled data := by
  constructor
  · intro hsame
    by_contra hnot
    obtain ⟨h0, hsettled⟩ := not_or.mp hnot
    apply hsettled
    constructor
    · rintro ⟨rest, hrest⟩
      have hyes : isResponse (data ++ rest) = true := by
        rw [hrest]
        decide
      rw [(hsame rest [65]).1, isResponse_append_letter data h0] at hyes
      cases hyes
    · intro name hname
      constructor
      · intro hfirst
        have := (hsame [] [65]).2
        rw [List.append_nil] at this
        exact callOf_append_letter h0 hname hfirst this
      · by_contra hopen
        obtain ⟨hblank, hpre⟩ := not_or.mp hopen
        obtain ⟨rest, hrest⟩ := not_not.mp hpre
        have := (hsame rest (rest ++ [65])).2
        rw [← List.append_assoc, hrest] at this
        obtain ⟨hplain, hword⟩ := command_plain name hname
        have hfirst : ascii name <+: (ascii name).takeWhile (· != 32) := by
          simp only [hword, List.prefix_rfl]
        exact callOf_append_letter hplain hname hfirst this
  · intro h rest rest'
    by_cases hnul : 0 ∈ data
    · simp only [isResponse, callOf, str_append_of_mem hnul, and_self]
    · have hsettled := h.resolve_left hnul
      obtain ⟨hresponse, hcall⟩ := callOf_of_settled hsettled hnul rest
      obtain ⟨hresponse', hcall'⟩ := callOf_of_settled hsettled hnul rest'
      exact ⟨hresponse.trans hresponse'.symm, hcall.trans hcall'.symm⟩

/-- A datagram is interpreted from its own bytes exactly when there is a NUL among them. Without
one, the command alone depends on them alone exactly when they are settled. -/
theorem ownBytes_iff (board : Board) (data : Memory) :
    (OwnBytes board data ↔ 0 ∈ data) ∧ (SameCommand data ↔ 0 ∈ data ∨ Settled data) :=
  ⟨ownBytes_iff_mem board data, sameCommand_iff data⟩

/-- A thrust command of which an earlier packet has left a word in the buffer, and a response that
it has left a letter of. -/
theorem leftover_word :
    callOf (ascii "badgerloop thrust o" ++ ascii "n") ≠
        callOf (ascii "badgerloop thrust o" ++ [0]) ∧
      isResponse (ascii "new phone who dis" ++ ascii "!") = false ∧
      isResponse (ascii "new phone who dis" ++ [0]) = true ∧
      ¬∀ data, OwnBytes quietBoard data := by
  refine ⟨by decide, by decide, by decide, fun h => ?_⟩
  have hsame := h (ascii "new phone who dis") (ascii "!") [0] outgoingQuery { pod := boot }
  have := congrArg (·.1) hsame
  revert this
  decide

end PodFirmware
