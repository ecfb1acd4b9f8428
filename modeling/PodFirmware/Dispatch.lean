import PodFirmware.CommandTable

/-!
# PodFirmware.Dispatch

Which entry of the command table a word selects. `get_command_index` compares as many characters as
the name of the entry has, so a name that is a beginning of the word is enough, and the first entry
in the order of the table wins.

* `Exact`: a word selects the entry of its own name and no other.
* `Shielded`: every entry whose name is a proper beginning of the word comes after the word's own.
* `exactDispatch_iff`: for a table of distinct names the two are the same.
-/

namespace PodFirmware

open CString

namespace Dispatch

section Selection

variable {S : Type} {commands : List (Command S)} {w : Word} {i : Nat}

def names (commands : List (Command S)) : List Word := commands.map fun c => ascii c.name

/-- A word selects an entry by its whole name. A line whose first word it is does what it would do
if the table had no other entries. -/
structure Exact (commands : List (Command S)) (w : Word) : Prop where
  index : ∀ i, getCommandIndex (commands.map (·.name)) w = some i ↔ (names commands)[i]? = some w
  runs : ∀ print buffer s, (str buffer 0).takeWhile (· != 32) = w →
    processInput commands print buffer s =
      processInput (commands.filter fun c => ascii c.name = w) print buffer s

def Shielded (commands : List (Command S)) (w : Word) : Prop :=
  ∀ (i : Nat) (v : Word), (names commands)[i]? = some v → v <+: w → v ≠ w →
    ∃ j < i, (names commands)[j]? = some w

theorem getCommandIndex_eq (commands : List (Command S)) (w : Word) :
    getCommandIndex (commands.map (·.name)) w =
      (names commands).findIdx? fun v => v.isPrefixOf w := by
  rw [getCommandIndex, names, List.findIdx?_map, List.findIdx?_map]
  rfl

theorem getCommandIndex_eq_some_iff : getCommandIndex (commands.map (·.name)) w = some i ↔
    (∃ v, (names commands)[i]? = some v ∧ v <+: w) ∧
      ∀ j < i, ∀ v, (names commands)[j]? = some v → ¬v <+: w := by
  rw [getCommandIndex_eq, List.findIdx?_eq_some_iff_getElem]
  constructor
  · rintro ⟨hi, hw, hfirst⟩
    refine ⟨⟨_, List.getElem?_eq_getElem hi, List.isPrefixOf_iff_prefix.mp hw⟩, ?_⟩
    intro j hj v hv hbegin
    obtain ⟨hj', rfl⟩ := List.getElem?_eq_some_iff.mp hv
    exact hfirst j hj (List.isPrefixOf_iff_prefix.mpr hbegin)
  · rintro ⟨⟨v, hv, hbegin⟩, hfirst⟩
    obtain ⟨hi, rfl⟩ := List.getElem?_eq_some_iff.mp hv
    refine ⟨hi, List.isPrefixOf_iff_prefix.mpr hbegin, ?_⟩
    intro j hj hw
    exact hfirst j hj _ (List.getElem?_eq_getElem _) (List.isPrefixOf_iff_prefix.mp hw)

/-- Some entry is selected as soon as one name is a beginning of the word. -/
theorem exists_getCommandIndex {v : Word} (hv : (names commands)[i]? = some v) (hbegin : v <+: w) :
    ∃ j ≤ i, getCommandIndex (commands.map (·.name)) w = some j := by
  obtain ⟨hi, rfl⟩ := List.getElem?_eq_some_iff.mp hv
  cases h : getCommandIndex (commands.map (·.name)) w with
  | none =>
    rw [getCommandIndex_eq, List.findIdx?_eq_none_iff] at h
    have hnot := h _ (List.getElem_mem hi)
    rw [List.isPrefixOf_iff_prefix.mpr hbegin] at hnot
    exact absurd hnot (by decide)
  | some j =>
    refine ⟨j, Nat.le_of_not_lt fun hlt => ?_, rfl⟩
    exact (getCommandIndex_eq_some_iff.mp h).2 i hlt _ hv hbegin

/-! ## The condition -/

theorem shielded_of_index
    (h : ∀ i, getCommandIndex (commands.map (·.name)) w = some i ↔ (names commands)[i]? = some w) :
    Shielded commands w := by
  intro i v hv hbegin hne
  obtain ⟨j, hj, hindex⟩ := exists_getCommandIndex hv hbegin
  have hjw := (h j).mp hindex
  refine ⟨j, Nat.lt_of_le_of_ne hj ?_, hjw⟩
  rintro rfl
  exact hne (Option.some.inj (hv.symm.trans hjw))

theorem index_of_shielded (hnodup : (names commands).Nodup) (h : Shielded commands w) (i : Nat) :
    getCommandIndex (commands.map (·.name)) w = some i ↔ (names commands)[i]? = some w := by
  rw [getCommandIndex_eq_some_iff]
  constructor
  · rintro ⟨⟨v, hv, hbegin⟩, hfirst⟩
    by_cases hvw : v = w
    · rw [hv, hvw]
    · obtain ⟨j, hj, hjw⟩ := h i v hv hbegin hvw
      exact absurd (List.prefix_refl w) (hfirst j hj w hjw)
  · intro hi
    have honly : ∀ j, (names commands)[j]? = some w → j = i := by
      intro j hj
      obtain ⟨hj', -⟩ := List.getElem?_eq_some_iff.mp hj
      exact (List.getElem?_inj hj' hnodup).mp (hj.trans hi.symm)
    refine ⟨⟨w, hi, List.prefix_refl w⟩, ?_⟩
    intro j hj v hv hbegin
    by_cases hvw : v = w
    · exact absurd (honly j (hvw ▸ hv)) (by omega)
    · obtain ⟨k, hk, hkw⟩ := h j v hv hbegin hvw
      exact absurd (honly k hkw) (by omega)

/-- The command that a word selects. -/
def selected (commands : List (Command S)) (w : Word) : Option (Command S) :=
  (getCommandIndex (commands.map (·.name)) w).bind (commands[·]?)

theorem dispatch_congr {commands' : List (Command S)} {argv : List Word}
    (h : selected commands (argv.headD []) = selected commands' (argv.headD []))
    (print : Word → S → S) (s : S) :
    dispatch commands print argv s = dispatch commands' print argv s := by
  unfold selected at h
  rw [dispatch, dispatch, h]

theorem selected_eq_some (h : getCommandIndex (commands.map (·.name)) w = some i) :
    selected commands w = commands[i]? := by
  rw [selected, h]
  rfl

/-- The entry that is selected is also the one selected among the entries of that name. -/
theorem selected_filter
    (h : ∀ i, getCommandIndex (commands.map (·.name)) w = some i ↔ (names commands)[i]? = some w) :
    selected commands w = selected (commands.filter fun c => ascii c.name = w) w := by
  cases hf : commands.filter fun c => ascii c.name = w with
  | nil =>
    rw [selected, Option.bind_eq_none_iff.mpr]
    · rfl
    · intro i hi
      obtain ⟨c, hc, hw⟩ : ∃ c, commands[i]? = some c ∧ ascii c.name = w := by
        simpa [names] using (h i).mp hi
      have hmem : c ∈ commands.filter fun c => ascii c.name = w :=
        List.mem_filter.mpr ⟨List.mem_of_getElem? hc, decide_eq_true hw⟩
      rw [hf] at hmem
      exact absurd hmem List.not_mem_nil
  | cons c rest =>
    have hmem : c ∈ commands.filter fun c => ascii c.name = w := hf ▸ List.mem_cons_self
    obtain ⟨hc, hw⟩ := List.mem_filter.mp hmem
    have hw : ascii c.name = w := of_decide_eq_true hw
    obtain ⟨i, hi⟩ := List.getElem?_of_mem hc
    have hindex : getCommandIndex (commands.map (·.name)) w = some i := by
      rw [h, names, List.getElem?_map, hi, Option.map_some, hw]
    have hfirst : getCommandIndex ((c :: rest).map (·.name)) w = some 0 := by
      rw [getCommandIndex_eq_some_iff]
      refine ⟨⟨w, by simp [names, hw], List.prefix_refl w⟩, ?_⟩
      intro j hj
      exact absurd hj (Nat.not_lt_zero j)
    rw [selected_eq_some hindex, hi, selected_eq_some hfirst]
    rfl

theorem exact_of_index
    (h : ∀ i, getCommandIndex (commands.map (·.name)) w = some i ↔ (names commands)[i]? = some w) :
    Exact commands w := by
  refine ⟨h, ?_⟩
  intro print buffer s hw
  have hargs := map_str_splitBlanks buffer
  have hhead : (splitArgs (maxArgs - 1) (str buffer 0)).headD [] = w :=
    (head_splitArgs 8 _).trans hw
  have hselected : selected commands ((splitArgs (maxArgs - 1) (str buffer 0)).headD []) =
      selected (commands.filter fun c => ascii c.name = w)
        ((splitArgs (maxArgs - 1) (str buffer 0)).headD []) := by
    rw [hhead]
    exact selected_filter h
  simp only [processInput, hargs]
  rw [dispatch_congr hselected]

/-- For a table of distinct names: a word selects its own entry only, exactly when no entry in front
of its own, or none at all if it has none, is named by a proper beginning of it. -/
theorem exactDispatch_iff (hnodup : (names commands).Nodup) :
    Exact commands w ↔ Shielded commands w :=
  ⟨fun h => shielded_of_index h.index, fun h => exact_of_index (index_of_shielded hnodup h)⟩

end Selection

/-- `helpme` runs `help`. -/
theorem helpme_not_exact : ¬Exact (podCommands quietBoard) (ascii "helpme") := by
  intro h
  have hfirst := (h.index 0).mp (by decide)
  exact absurd hfirst (by decide)

theorem exactDispatch_iff_help : Exact (podCommands quietBoard) (ascii "help") ↔
    Shielded (podCommands quietBoard) (ascii "help") :=
  exactDispatch_iff (by decide)

end Dispatch

end PodFirmware
