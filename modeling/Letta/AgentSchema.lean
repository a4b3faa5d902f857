import Mathlib.Data.List.Nodup

/-!
# The agent schema's validators

`schemas/agent.py` checks and completes the agent records the manager hands
around. This module models the checks that compute something:

- `CreateAgent.validate_name`, a `re.match` against `^[A-Za-z0-9 _-]+$`.
  Python's `$` matches at the end of the string and also just before a final
  newline, so besides the names its comment describes the validator accepts
  each of them followed by one `"\n"` (`validateName_ok_or_invalid`).
- `CreateAgent.validate_model` and `validate_embedding`, one body with two
  messages (`validateHandle`): `handle.split("/", 1)` unpacked into two names.
  A handle without `/` never reaches the format message: the unpacking raises
  first (`validateHandle_classify`).
- `AgentState.set_file_defaults_based_on_context_window`, which fills the
  file controls left unset from the context window (`setFileDefaults`).
- `AgentState.get_agent_env_vars_as_dict`, a loop writing into a dict: its
  keys are distinct and each maps to the value of the last variable with that
  key (`getAgentEnvVarsAsDict_lookup`).

Each Python idiom the bodies use has its own definition: `atDollar` and
`classPlusMatch` for the regex, `splitOnce` for `str.split(sep, 1)`,
`dictSet` for `d[k] = v`.
-/

namespace Letta

/-! ## Python's `re.match("^C+$", s)` -/

/-- Python's `$` without `re.MULTILINE`: the end of the string, or just
before a newline that ends it. -/
def atDollar (rest : List Char) : Bool := rest == [] || rest == ['\n']

/-- `C*$`, tried as the regex engine does: one more `C` first, then `$`. -/
def classStarDollar (cls : Char → Bool) : List Char → Bool
  | [] => atDollar []
  | c :: cs => (cls c && classStarDollar cls cs) || atDollar (c :: cs)

/-- `re.match("^C+$", s)` for a character class `C`. -/
def classPlusMatch (cls : Char → Bool) : List Char → Bool
  | [] => false
  | c :: cs => cls c && classStarDollar cls cs

/-- Strings of the class, or such a string followed by one final newline. -/
theorem classStarDollar_iff (cls : Char → Bool) (s : List Char) :
    classStarDollar cls s = true ↔
      (∀ c ∈ s, cls c = true) ∨ ∃ t, s = t ++ ['\n'] ∧ ∀ c ∈ t, cls c = true := by
  induction s with
  | nil => simp [classStarDollar, atDollar]
  | cons c cs ih =>
    simp only [classStarDollar, atDollar, Bool.or_eq_true, Bool.and_eq_true, ih, beq_iff_eq,
      List.forall_mem_cons, reduceCtorEq, false_or, List.cons.injEq]
    constructor
    · rintro (⟨hc, hcs | ⟨t, rfl, ht⟩⟩ | ⟨rfl, rfl⟩)
      · exact .inl ⟨hc, hcs⟩
      · exact .inr ⟨c :: t, rfl, List.forall_mem_cons.2 ⟨hc, ht⟩⟩
      · exact .inr ⟨[], rfl, by simp⟩
    · rintro (⟨hc, hcs⟩ | ⟨_ | ⟨d, t⟩, h, ht⟩)
      · exact .inl ⟨hc, .inl hcs⟩
      · exact .inr (List.cons.inj h)
      · obtain ⟨rfl, rfl⟩ := List.cons.inj h
        exact .inl ⟨(List.forall_mem_cons.1 ht).1, .inr ⟨t, rfl, (List.forall_mem_cons.1 ht).2⟩⟩

theorem classPlusMatch_iff (cls : Char → Bool) (s : List Char) :
    classPlusMatch cls s = true ↔ (s ≠ [] ∧ ∀ c ∈ s, cls c = true) ∨
      ∃ t, t ≠ [] ∧ s = t ++ ['\n'] ∧ ∀ c ∈ t, cls c = true := by
  cases s with
  | nil => simp [classPlusMatch]
  | cons c cs =>
    simp only [classPlusMatch, Bool.and_eq_true, classStarDollar_iff, ne_eq, reduceCtorEq,
      not_false_eq_true, true_and, List.forall_mem_cons]
    constructor
    · rintro ⟨hc, hcs | ⟨t, rfl, ht⟩⟩
      · exact .inl ⟨hc, hcs⟩
      · exact .inr ⟨c :: t, List.cons_ne_nil _ _, rfl, List.forall_mem_cons.2 ⟨hc, ht⟩⟩
    · rintro (⟨hc, hcs⟩ | ⟨_ | ⟨d, t⟩, hne, h, ht⟩)
      · exact ⟨hc, .inl hcs⟩
      · exact absurd rfl hne
      · obtain ⟨rfl, rfl⟩ := List.cons.inj h
        exact ⟨(List.forall_mem_cons.1 ht).1, .inr ⟨t, rfl, (List.forall_mem_cons.1 ht).2⟩⟩

/-! ## Names -/

/-- The class `[A-Za-z0-9 _-]`; `isUpper`, `isLower` and `isDigit` are the
ASCII ranges. -/
def nameChar (c : Char) : Bool :=
  c.isUpper || c.isLower || c.isDigit || c == ' ' || c == '_' || c == '-'

/-- `CreateAgent.validate_name`: an empty name is not checked. -/
def validateName (name : String) : Except String String :=
  if name == "" then .ok name
  else if classPlusMatch nameChar name.data then .ok name
  else .error "Name contains invalid characters."

/-- The names `validate_name` lets through: characters of the class only, or
a nonempty such name followed by one final newline. -/
def NameAccepted (s : List Char) : Prop :=
  (∀ c ∈ s, nameChar c = true) ∨ ∃ t, t ≠ [] ∧ s = t ++ ['\n'] ∧ ∀ c ∈ t, nameChar c = true

/-- **Names.** `validate_name` returns the name unchanged when it is made of
letters, digits, spaces, hyphens and underscores, or is such a name with one
final newline; it rejects every other name with the same message. -/
theorem validateName_ok_or_invalid (name : String) :
    validateName name = .ok name ∧ NameAccepted name.data ∨
      validateName name = .error "Name contains invalid characters." ∧ ¬ NameAccepted name.data := by
  by_cases he : name = ""
  · subst he
    exact .inl ⟨rfl, .inl (by simp)⟩
  have hne : name.data ≠ [] := fun h => he (String.ext h)
  have hm : classPlusMatch nameChar name.data = true ↔ NameAccepted name.data := by
    rw [classPlusMatch_iff, NameAccepted, and_iff_right hne]
  simp only [validateName, beq_iff_eq, he, if_false]
  by_cases h : NameAccepted name.data
  · exact .inl ⟨by rw [if_pos (hm.2 h)], h⟩
  · exact .inr ⟨by rw [if_neg (mt hm.1 h)], h⟩

example : validateName "agent\n" = .ok "agent\n" := rfl

/-! ## Handles -/

/-- The text before the first `sep`, and what follows that `sep` when there
is one. -/
def breakAt (sep : Char) : List Char → List Char × Option (List Char)
  | [] => ([], none)
  | c :: cs => if c = sep then ([], some cs) else ((c :: (breakAt sep cs).1), (breakAt sep cs).2)

/-- Python's `s.split(sep, 1)`. -/
def splitOnce (sep : Char) (s : List Char) : List (List Char) :=
  match breakAt sep s with
  | (p, none) => [p]
  | (p, some m) => [p, m]

theorem breakAt_of_not_mem {sep : Char} : ∀ {s : List Char}, sep ∉ s → breakAt sep s = (s, none)
  | [], _ => rfl
  | c :: cs, h => by
    rw [List.mem_cons, not_or] at h
    simp [breakAt, Ne.symm h.1, breakAt_of_not_mem h.2]

theorem breakAt_append {sep : Char} (m : List Char) :
    ∀ {p : List Char}, sep ∉ p → breakAt sep (p ++ sep :: m) = (p, some m)
  | [], _ => by simp [breakAt]
  | c :: cs, h => by
    rw [List.mem_cons, not_or] at h
    simp [breakAt, Ne.symm h.1, breakAt_append m h.2]

/-- Every string with a `sep` splits at its first one. -/
theorem exists_first_split {sep : Char} : ∀ {s : List Char}, sep ∈ s →
    ∃ p m, s = p ++ sep :: m ∧ sep ∉ p
  | c :: cs, h => by
    by_cases hc : c = sep
    · exact ⟨[], cs, by rw [hc]; rfl, List.not_mem_nil _⟩
    · obtain ⟨p, m, rfl, hp⟩ := exists_first_split ((List.mem_cons.1 h).resolve_left (Ne.symm hc))
      exact ⟨c :: p, m, rfl, by simp [Ne.symm hc, hp]⟩

/-- The message Python raises when `a, b = parts` finds one part. -/
def unpackError : String := "not enough values to unpack (expected 2, got 1)"

/-- The body `validate_model` and `validate_embedding` share: `None` and `""`
pass unchecked; otherwise the handle is split at its first `/`, and both
parts must be nonempty. -/
def validateHandle (message : String) (handle : Option String) : Except String (Option String) :=
  match handle with
  | none => .ok handle
  | some s =>
    if s == "" then .ok handle
    else match splitOnce '/' s.data with
      | [providerName, modelName] =>
        if providerName.isEmpty || modelName.isEmpty then .error message else .ok handle
      | _ => .error unpackError

/-- `CreateAgent.validate_model`. -/
def validateModel : Option String → Except String (Option String) :=
  validateHandle "The llm config handle should be in the format provider/model-name"

/-- `CreateAgent.validate_embedding`. -/
def validateEmbedding : Option String → Except String (Option String) :=
  validateHandle "The embedding config handle should be in the format provider/model-name"

/-- A handle of the form `provider/name`: a nonempty provider without `/`,
then a nonempty rest, which may hold more `/`. -/
def HandleWellFormed (s : List Char) : Prop :=
  ∃ p m, s = p ++ '/' :: m ∧ '/' ∉ p ∧ p ≠ [] ∧ m ≠ []

theorem handleWellFormed_iff {p m : List Char} (hp : '/' ∉ p) :
    HandleWellFormed (p ++ '/' :: m) ↔ p ≠ [] ∧ m ≠ [] := by
  constructor
  · rintro ⟨p', m', h, hp', hne, hme⟩
    have := (breakAt_append m hp).symm.trans (h ▸ breakAt_append m' hp')
    simp only [Prod.mk.injEq, Option.some.injEq] at this
    exact this.1 ▸ this.2 ▸ ⟨hne, hme⟩
  · rintro ⟨hne, hme⟩
    exact ⟨p, m, rfl, hp, hne, hme⟩

/-- **Handles.** `validate_model` and `validate_embedding` return the handle
unchanged when it is `None`, empty or well formed. A nonempty handle without
`/` fails with Python's unpacking error, never with the format message; a
handle with a `/` that is not well formed fails with the format message. -/
theorem validateHandle_classify (message : String) (handle : Option String) :
    (validateHandle message handle = .ok handle ∧
        (handle = none ∨ handle = some "" ∨ ∃ s, handle = some s ∧ HandleWellFormed s.data)) ∨
      (∃ s, handle = some s ∧ s ≠ "" ∧ '/' ∉ s.data ∧ validateHandle message handle = .error unpackError) ∨
      (∃ s, handle = some s ∧ '/' ∈ s.data ∧ ¬ HandleWellFormed s.data ∧
        validateHandle message handle = .error message) := by
  rcases handle with _ | s
  · exact .inl ⟨rfl, .inl rfl⟩
  by_cases he : s = ""
  · subst he
    exact .inl ⟨rfl, .inr (.inl rfl)⟩
  by_cases hs : '/' ∈ s.data
  · obtain ⟨p, m, hpm, hp⟩ := exists_first_split hs
    have hv : validateHandle message (some s) =
        if p.isEmpty || m.isEmpty then .error message else .ok (some s) := by
      simp only [validateHandle, beq_iff_eq, he, if_false, splitOnce, hpm, breakAt_append m hp]
    have hw : HandleWellFormed s.data ↔ p ≠ [] ∧ m ≠ [] := by
      rw [hpm]
      exact handleWellFormed_iff hp
    by_cases hpm' : p ≠ [] ∧ m ≠ []
    · refine .inl ⟨?_, .inr (.inr ⟨s, rfl, hw.2 hpm'⟩)⟩
      simp [hv, List.isEmpty_iff, hpm'.1, hpm'.2]
    · refine .inr (.inr ⟨s, rfl, hs, mt hw.1 hpm', ?_⟩)
      rw [hv, if_pos]
      simpa [List.isEmpty_iff, or_iff_not_imp_left] using hpm'
  · refine .inr (.inl ⟨s, rfl, he, hs, ?_⟩)
    simp [validateHandle, he, splitOnce, breakAt_of_not_mem hs]

example : validateModel (some "gpt-4o") = .error unpackError := rfl

/-! ## File controls -/

/-- The fields `set_file_defaults_based_on_context_window` reads and writes:
`llm_config.context_window` and the two file controls. -/
structure FileSettings where
  contextWindow : Option Int
  maxFilesOpen : Option Int
  perFileViewWindowCharLimit : Option Int
  deriving DecidableEq, Repr

/-- `self.llm_config.context_window if ... and self.llm_config.context_window
else None`: an unset or zero window is `None`. -/
def contextWindowOf (a : FileSettings) : Option Int :=
  match a.contextWindow with
  | some w => if w ≠ 0 then some w else none
  | none => none

/-- `AgentState.set_file_defaults_based_on_context_window`. `calculate` is
`calculate_file_defaults_based_on_context_window` of `letta.utils`, which is
not under src/: it gives the default file count and character limit for a
context window. -/
def setFileDefaults (calculate : Option Int → Int × Int) (a : FileSettings) : FileSettings :=
  if a.maxFilesOpen.isSome && a.perFileViewWindowCharLimit.isSome then a
  else
    let defaults := calculate (contextWindowOf a)
    { a with
      maxFilesOpen := if a.maxFilesOpen.isNone then some defaults.1 else a.maxFilesOpen
      perFileViewWindowCharLimit :=
        if a.perFileViewWindowCharLimit.isNone then some defaults.2 else a.perFileViewWindowCharLimit }

/-! ## Environment variables -/

/-- An `AgentEnvironmentVariable`, as far as `get_agent_env_vars_as_dict`
reads it. -/
structure AgentEnvironmentVariable where
  key : String
  value : String
  deriving DecidableEq, Repr

/-- Python's `d[k] = v` on a dict, kept as its items in insertion order: a
key already there keeps its place and takes the new value. -/
def dictSet (d : List (String × String)) (k v : String) : List (String × String) :=
  if d.any (·.1 == k) then d.map fun e => if e.1 = k then (k, v) else e else d ++ [(k, v)]

/-- `AgentState.get_agent_env_vars_as_dict`. -/
def getAgentEnvVarsAsDict (vars : List AgentEnvironmentVariable) : List (String × String) :=
  vars.foldl (fun d var => dictSet d var.key var.value) []

theorem lookup_cons_ne {a k b : String} {es : List (String × String)} (h : a ≠ k) :
    ((k, b) :: es).lookup a = es.lookup a := by
  rw [List.lookup_cons, beq_false_of_ne h]

theorem lookup_map_set (d : List (String × String)) (k v k' : String) :
    (d.map fun e => if e.1 = k then (k, v) else e).lookup k' =
      if k = k' then (if d.any (·.1 == k) then some v else none) else d.lookup k' := by
  induction d with
  | nil => split <;> rfl
  | cons e d ih =>
    obtain ⟨a, b⟩ := e
    by_cases ha : a = k
    · subst ha
      simp only [List.map_cons, eq_self_iff_true, if_true]
      by_cases hk : a = k'
      · subst hk
        simp
      · rw [lookup_cons_ne (Ne.symm hk), ih, if_neg hk, if_neg hk, lookup_cons_ne (Ne.symm hk)]
    · simp only [List.map_cons, ha, if_false]
      by_cases hk : k = k'
      · subst hk
        rw [lookup_cons_ne (Ne.symm ha), ih]
        simp only [if_true, List.any_cons, beq_false_of_ne ha, Bool.false_or]
      · by_cases hak : a = k'
        · subst hak
          simp [hk]
        · rw [lookup_cons_ne (Ne.symm hak), ih, if_neg hk, if_neg hk, lookup_cons_ne (Ne.symm hak)]

theorem lookup_append_of_not_mem (d : List (String × String)) {k : String}
    (h : d.any (·.1 == k) = false) (v k' : String) :
    (d ++ [(k, v)]).lookup k' = if k = k' then some v else d.lookup k' := by
  rw [List.lookup_append]
  by_cases hk : k = k'
  · subst hk
    have hnone : d.lookup k = none := List.lookup_eq_none_iff.2 fun p hp => by
      have hp := List.any_eq_false.1 h p hp
      simp only [beq_iff_eq] at hp
      simpa only [bne_iff_ne, ne_eq] using fun e => hp e.symm
    rw [hnone, List.lookup_cons_self, if_pos rfl]
    rfl
  · simp [lookup_cons_ne (Ne.symm hk), hk]

/-- One assignment: the key now maps to the value, every other key as before. -/
theorem lookup_dictSet (d : List (String × String)) (k v k' : String) :
    (dictSet d k v).lookup k' = if k = k' then some v else d.lookup k' := by
  unfold dictSet
  split
  · next h => rw [lookup_map_set, h]; rfl
  · next h => exact lookup_append_of_not_mem d (Bool.not_eq_true _ ▸ h) v k'

/-- An assignment keeps the keys distinct. -/
theorem nodup_dictSet {d : List (String × String)} (hd : (d.map (·.1)).Nodup) (k v : String) :
    ((dictSet d k v).map (·.1)).Nodup := by
  unfold dictSet
  split
  · next h =>
    have hkeys : (d.map fun e => if e.1 = k then (k, v) else e).map (·.1) = d.map (·.1) := by
      rw [List.map_map]
      exact List.map_congr_left fun e _ => by by_cases he : e.1 = k <;> simp [he]
    rwa [hkeys]
  · next h =>
    rw [List.map_append, List.nodup_append]
    refine ⟨hd, List.nodup_singleton _, ?_⟩
    simp only [List.any_eq_true, beq_iff_eq, not_exists, not_and] at h
    simpa [List.disjoint_singleton, List.mem_map] using fun x hx => h (k, x) hx rfl

/-- The loop from any dict: distinct keys stay distinct, and a key maps to
the value of the last variable with that key, or as before when none has it. -/
theorem foldl_dictSet (vars : List AgentEnvironmentVariable) :
    ∀ {d : List (String × String)}, (d.map (·.1)).Nodup →
      ((vars.foldl (fun d var => dictSet d var.key var.value) d).map (·.1)).Nodup ∧
      ∀ k, (vars.foldl (fun d var => dictSet d var.key var.value) d).lookup k =
        (((vars.filter (·.key == k)).getLast?).map (·.value)).or (d.lookup k) := by
  induction vars with
  | nil => exact fun hd => ⟨hd, fun k => rfl⟩
  | cons var vars ih =>
    intro d hd
    obtain ⟨hnd, hlk⟩ := ih (nodup_dictSet hd var.key var.value)
    refine ⟨hnd, fun k => ?_⟩
    rw [List.foldl_cons, hlk, lookup_dictSet]
    by_cases hk : var.key = k
    · rcases hl : (vars.filter (·.key == k)).getLast? with _ | w
      · rw [List.getLast?_eq_none_iff] at hl
        simp [List.filter_cons, hk, hl]
      · simp [List.filter_cons, hk, hl, List.getLast?_cons]
    · simp [List.filter_cons, hk]

/-- **Environment variables.** The dict `get_agent_env_vars_as_dict`
returns has distinct keys, and each key maps to the value of the last
variable that has it. -/
theorem getAgentEnvVarsAsDict_lookup (vars : List AgentEnvironmentVariable) :
    ((getAgentEnvVarsAsDict vars).map (·.1)).Nodup ∧
      ∀ k, (getAgentEnvVarsAsDict vars).lookup k = ((vars.filter (·.key == k)).getLast?).map (·.value) := by
  obtain ⟨hnd, hlk⟩ := @foldl_dictSet vars [] List.nodup_nil
  exact ⟨hnd, fun k => by rw [getAgentEnvVarsAsDict, hlk]; cases ((vars.filter (·.key == k)).getLast?) <;> rfl⟩

end Letta
