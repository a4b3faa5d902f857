import Mathlib.Data.List.Sort
import Letta.Like

/-!
# Listing

`get_blocks_async`, `get_agents_for_block_async` and
`get_all_blocks_by_ids_async`, as the queries they build.

A query is a pipeline over rows: the `WHERE` filters, the joins (the agent
count subquery, one row per block; each identity join, one row per linked
identity that passes its filter), the cursor conditions, the order, the
optional `DISTINCT ON (id)`, and the limit. `ORDER BY` is a stable
insertion sort on the sort key; ties keep table order, one of the orders
the server may return.

The cursor conditions are the code's, lines 299–327 and 465–493:
`created_at > t AND (created_at = t OR id > i)` for a row after the cursor
row `(t, i)`. The conjunction drops both the rows tied with the cursor on
`created_at` and the later rows with a smaller id, so it is not the
lexicographic window on `(created_at, id)` that `referencePage` states.
The rounding applied on SQLite is not modelled.

The order is a strict total order on keys, so on rows with distinct keys the
sort commutes with every filter (`sortBy_filter`). Hence the plain page is
the matching blocks in `(created_at, id)` order cut down by the code's
conditions (`getBlocksAsync_plain`), and the `DISTINCT` page is the matching
blocks sorted on `(id, created_at)`, each once, cut down by the same
conditions (`getBlocksAsync_distinct`). The lookup by ids returns the
positional answer up to order (`getAllBlocksByIdsAsync_perm`).
-/

namespace Letta

/-! ## Sort keys, cursors and limits -/

section Pager

variable {α : Type} (key : α → Nat × String)

/-- The server's order on ids (the `C` collation): code point by code point,
a proper prefix first. -/
def charsLt : List Char → List Char → Bool
  | [], [] => false
  | [], _ :: _ => true
  | _ :: _, [] => false
  | a :: as, b :: bs => a.toNat < b.toNat || (a == b && charsLt as bs)

def idLt (a b : String) : Bool := charsLt a.data b.data

/-- The strict order of `ORDER BY created_at, id`. -/
def keyLt (k₁ k₂ : Nat × String) : Bool := k₁.1 < k₂.1 || (k₁.1 == k₂.1 && idLt k₁.2 k₂.2)

/-- `ORDER BY created_at, id`, both descending when not ascending. -/
def sortByKey (ascending : Bool) (rows : List α) : List α :=
  rows.insertionSort fun a b => (if ascending then !keyLt (key b) (key a) else !keyLt (key a) (key b)) = true

/-- The key of the cursor row: `select(created_at, id).where(id == c).first()`,
over the whole table. A falsy or unknown cursor gives none. -/
def cursorKey (rows : List α) (c : Option String) : Option (Nat × String) :=
  if truthy c then ((rows.find? fun r => (key r).2 = c.getD "").map key) else none

/-- One cursor condition against the cursor row's key `(t, i)`: with `above`,
`created_at > t AND (created_at = t OR id > i)`; otherwise
`created_at < t AND (created_at = t OR id < i)`. -/
def cursorCondition (above : Bool) (t : Nat) (i : String) (k : Nat × String) : Bool :=
  if above then decide (t < k.1) && (k.1 == t || idLt i k.2)
  else decide (k.1 < t) && (k.1 == t || idLt k.2 i)

/-- The `after` and `before` conditions of lines 299–327 on one key: `after`
looks above the cursor when ascending, `before` below. -/
def inWindow (ascending : Bool) (afterKey beforeKey : Option (Nat × String)) (k : Nat × String) : Bool :=
  (afterKey.all fun (t, i) => cursorCondition ascending t i k) &&
    beforeKey.all fun (t, i) => cursorCondition (!ascending) t i k

def cursorWindow (ascending : Bool) (afterKey beforeKey : Option (Nat × String)) (rows : List α) :
    List α :=
  rows.filter fun r => inWindow ascending afterKey beforeKey (key r)

end Pager

/-- `if limit: query = query.limit(limit)`: `None` and `0` put no limit. -/
def applyLimit {α : Type} (limit : Option Nat) (rows : List α) : List α :=
  match limit with
  | some (n + 1) => rows.take (n + 1)
  | _ => rows

/-- The page a listing is meant to return: the rows sorted by `(created_at, id)`, kept
strictly between the cursor rows' keys in that order, the first `limit`. -/
def referencePage {α : Type} (key : α → Nat × String) (ascending : Bool)
    (afterKey beforeKey : Option (Nat × String)) (limit : Option Nat) (rows : List α) : List α :=
  let inOrder (k₁ k₂ : Nat × String) : Bool := if ascending then keyLt k₁ k₂ else keyLt k₂ k₁
  applyLimit limit ((sortByKey key ascending rows).filter fun r =>
    (afterKey.all fun k => inOrder k (key r)) && beforeKey.all fun k => inOrder (key r) k)

/-! ## The order on keys

`ORDER BY created_at, id`, and the `ORDER BY id, created_at` under
`DISTINCT ON (id)`, both sort by the lexicographic combination of two strict
total orders, which is again one (`StrictTotal.lex`). So an insertion sort by
either is a sort, and on rows with distinct keys it commutes with every
filter (`sortBy_filter`): the cursor conditions may as well be applied after
the sort. -/

/-- A strict total order, as the test the model sorts by. -/
structure StrictTotal {γ : Type} (lt : γ → γ → Bool) : Prop where
  irrefl : ∀ k, lt k k = false
  trans : ∀ {k₁ k₂ k₃}, lt k₁ k₂ = true → lt k₂ k₃ = true → lt k₁ k₃ = true
  total : ∀ {k₁ k₂}, k₁ ≠ k₂ → lt k₁ k₂ = true ∨ lt k₂ k₁ = true

/-- The lexicographic order on pairs. -/
def lexLt {β γ : Type} [DecidableEq β] (lt₁ : β → β → Bool) (lt₂ : γ → γ → Bool) (k₁ k₂ : β × γ) :
    Bool :=
  lt₁ k₁.1 k₂.1 || (k₁.1 == k₂.1 && lt₂ k₁.2 k₂.2)

theorem StrictTotal.lex {β γ : Type} [DecidableEq β] {lt₁ : β → β → Bool} {lt₂ : γ → γ → Bool}
    (h₁ : StrictTotal lt₁) (h₂ : StrictTotal lt₂) : StrictTotal (lexLt lt₁ lt₂) where
  irrefl k := by simp [lexLt, h₁.irrefl, h₂.irrefl]
  trans a b := by
    simp only [lexLt, Bool.or_eq_true, Bool.and_eq_true, beq_iff_eq] at a b ⊢
    rcases a with a | ⟨e₁, a⟩ <;> rcases b with b | ⟨e₂, b⟩
    · exact .inl (h₁.trans a b)
    · exact .inl (e₂ ▸ a)
    · exact .inl (e₁ ▸ b)
    · exact .inr ⟨e₁.trans e₂, h₂.trans a b⟩
  total {k₁ k₂} h := by
    simp only [lexLt, Bool.or_eq_true, Bool.and_eq_true, beq_iff_eq]
    by_cases e : k₁.1 = k₂.1
    · exact (h₂.total fun e' => h (Prod.ext e e')).imp (.inr ⟨e, ·⟩) (.inr ⟨e.symm, ·⟩)
    · exact (h₁.total e).imp .inl .inl

theorem natLt_strictTotal : StrictTotal fun a b : Nat => decide (a < b) where
  irrefl k := by simp
  trans a b := by simp only [decide_eq_true_eq] at a b ⊢; omega
  total h := by simp only [decide_eq_true_eq]; omega

theorem char_eq_of_toNat_eq {a b : Char} (h : a.toNat = b.toNat) : a = b :=
  Char.ext (UInt32.eq_of_val_eq (Fin.ext h))

theorem charsLt_irrefl : ∀ l : List Char, charsLt l l = false
  | [] => rfl
  | _ :: l => by simp [charsLt, charsLt_irrefl l]

theorem charsLt_trans : ∀ {a b c : List Char}, charsLt a b = true → charsLt b c = true → charsLt a c = true
  | [], [], _, h, _ => nomatch h
  | [], _ :: _, [], _, h => nomatch h
  | [], _ :: _, _ :: _, _, _ => rfl
  | _ :: _, [], _, h, _ => nomatch h
  | _ :: _, _ :: _, [], _, h => nomatch h
  | x :: a, y :: b, z :: c, h₁, h₂ => by
      simp only [charsLt, Bool.or_eq_true, decide_eq_true_eq, Bool.and_eq_true, beq_iff_eq] at h₁ h₂ ⊢
      rcases h₁ with h₁ | ⟨rfl, h₁⟩ <;> rcases h₂ with h₂ | ⟨rfl, h₂⟩
      · exact .inl (Nat.lt_trans h₁ h₂)
      · exact .inl h₁
      · exact .inl h₂
      · exact .inr ⟨rfl, charsLt_trans h₁ h₂⟩

theorem charsLt_total : ∀ {a b : List Char}, a ≠ b → charsLt a b = true ∨ charsLt b a = true
  | [], [], h => absurd rfl h
  | [], _ :: _, _ => .inl rfl
  | _ :: _, [], _ => .inr rfl
  | x :: a, y :: b, h => by
      simp only [charsLt, Bool.or_eq_true, decide_eq_true_eq, Bool.and_eq_true, beq_iff_eq]
      by_cases hxy : x = y
      · subst hxy
        exact (charsLt_total fun e => h (congrArg (List.cons x) e)).imp (.inr ⟨rfl, ·⟩) (.inr ⟨rfl, ·⟩)
      · rcases Nat.lt_or_gt_of_ne fun e => hxy (char_eq_of_toNat_eq e) with h | h
        · exact .inl (.inl h)
        · exact .inr (.inl h)

theorem idLt_strictTotal : StrictTotal idLt where
  irrefl s := charsLt_irrefl s.data
  trans := charsLt_trans
  total h := charsLt_total fun e => h (String.ext e)

theorem keyLt_strictTotal : StrictTotal keyLt := natLt_strictTotal.lex idLt_strictTotal

/-- Not after in `lt`, or not before when descending: the order an `ORDER BY`
in either direction sorts by. -/
def sortLe {γ : Type} (lt : γ → γ → Bool) (ascending : Bool) (k₁ k₂ : γ) : Bool :=
  if ascending then !lt k₂ k₁ else !lt k₁ k₂

/-- A stable sort of rows on `key` by `sortLe lt`. -/
def sortBy {α γ : Type} (lt : γ → γ → Bool) (key : α → γ) (ascending : Bool) (rows : List α) : List α :=
  rows.insertionSort fun a b => sortLe lt ascending (key a) (key b) = true

section Order

variable {γ : Type} {lt : γ → γ → Bool}

theorem StrictTotal.asymm (h : StrictTotal lt) {k₁ k₂ : γ} (h₁ : lt k₁ k₂ = true) : lt k₂ k₁ = false :=
  Bool.eq_false_iff.mpr fun h₂ => by simpa [h.irrefl] using h.trans h₁ h₂

/-- Not being before is transitive. -/
theorem StrictTotal.not_lt_trans (h : StrictTotal lt) {k₁ k₂ k₃ : γ} (h₁ : lt k₂ k₁ = false)
    (h₂ : lt k₃ k₂ = false) : lt k₃ k₁ = false :=
  Bool.eq_false_iff.mpr fun h₃ => by
    by_cases e : k₂ = k₃
    · simp [e, h₃] at h₁
    · rcases h.total e with h' | h'
      · simp [h.trans h' h₃] at h₁
      · simp [h'] at h₂

theorem StrictTotal.sortLe_total (h : StrictTotal lt) (ascending : Bool) (k₁ k₂ : γ) :
    sortLe lt ascending k₁ k₂ = true ∨ sortLe lt ascending k₂ k₁ = true := by
  cases e : lt k₂ k₁ <;> cases ascending <;> simp [sortLe, e, h.asymm]

theorem StrictTotal.sortLe_trans (h : StrictTotal lt) (ascending : Bool) {k₁ k₂ k₃ : γ}
    (h₁ : sortLe lt ascending k₁ k₂ = true) (h₂ : sortLe lt ascending k₂ k₃ = true) :
    sortLe lt ascending k₁ k₃ = true := by
  cases ascending <;> simp only [sortLe, if_true, Bool.false_eq_true, if_false, Bool.not_eq_true'] at h₁ h₂ ⊢
  · exact h.not_lt_trans h₂ h₁
  · exact h.not_lt_trans h₁ h₂

theorem StrictTotal.sortLe_antisymm (h : StrictTotal lt) (ascending : Bool) {k₁ k₂ : γ}
    (h₁ : sortLe lt ascending k₁ k₂ = true) (h₂ : sortLe lt ascending k₂ k₁ = true) : k₁ = k₂ := by
  by_contra e
  rcases h.total e with e | e <;> cases ascending <;> simp_all [sortLe]

end Order

section Sorting

variable {α γ : Type} {lt : γ → γ → Bool} (key : α → γ) (ascending : Bool)

theorem sortBy_perm (rows : List α) : (sortBy lt key ascending rows).Perm rows :=
  List.perm_insertionSort _ rows

theorem sortBy_sorted (h : StrictTotal lt) (rows : List α) :
    (sortBy lt key ascending rows).Sorted fun a b => sortLe lt ascending (key a) (key b) = true :=
  @List.sorted_insertionSort _ _ _ ⟨fun a b => h.sortLe_total ascending (key a) (key b)⟩
    ⟨fun _ _ _ => h.sortLe_trans ascending⟩ rows

/-- Two lists of the same rows, both sorted on a key that tells the rows
apart, are one list. -/
theorem eq_of_perm_of_sortedBy (h : StrictTotal lt) {l₁ l₂ : List α} (hp : l₁.Perm l₂)
    (h₁ : l₁.Sorted fun a b => sortLe lt ascending (key a) (key b) = true)
    (h₂ : l₂.Sorted fun a b => sortLe lt ascending (key a) (key b) = true) (hk : (l₁.map key).Nodup) :
    l₁ = l₂ := by
  haveI : IsAntisymm γ fun k₁ k₂ => sortLe lt ascending k₁ k₂ = true :=
    ⟨fun _ _ => h.sortLe_antisymm ascending⟩
  have hmap {l : List α} (hl : l.Sorted fun a b => sortLe lt ascending (key a) (key b) = true) :
      (l.map key).Sorted fun k₁ k₂ => sortLe lt ascending k₁ k₂ = true :=
    List.pairwise_map.mpr hl
  have hkeys := List.eq_of_perm_of_sorted (hp.map key) (hmap h₁) (hmap h₂)
  exact eq_of_map_eq key hkeys fun x hx y hy => List.inj_on_of_nodup_map hk hy (hp.mem_iff.mpr hx)

/-- On rows with distinct keys, sorting commutes with every filter. -/
theorem sortBy_filter (h : StrictTotal lt) {rows : List α} (hk : (rows.map key).Nodup) (p : α → Bool) :
    sortBy lt key ascending (rows.filter p) = (sortBy lt key ascending rows).filter p :=
  eq_of_perm_of_sortedBy key ascending h
    ((sortBy_perm key ascending _).trans ((sortBy_perm key ascending rows).filter p).symm)
    (sortBy_sorted key ascending h _) ((sortBy_sorted key ascending h rows).filter p)
    (((sortBy_perm key ascending _).map key).nodup_iff.mpr (((List.filter_sublist _).map key).nodup hk))

end Sorting

section SortingByKey

variable {α : Type} (key : α → Nat × String) (ascending : Bool)

theorem sortByKey_perm (rows : List α) : (sortByKey key ascending rows).Perm rows :=
  List.perm_insertionSort _ rows

/-- On rows with distinct keys the cursor conditions may be applied to the
sorted rows. -/
theorem sortByKey_cursorWindow {rows : List α} (hk : (rows.map key).Nodup)
    (afterKey beforeKey : Option (Nat × String)) :
    sortByKey key ascending (cursorWindow key ascending afterKey beforeKey rows) =
      (sortByKey key ascending rows).filter fun r => inWindow ascending afterKey beforeKey (key r) :=
  sortBy_filter key ascending keyLt_strictTotal hk _

end SortingByKey

/-- The code's condition against the cursor row `(t, i)` holds exactly of the
keys beyond it on both columns: a later `created_at` and a later id (both
earlier below the cursor). -/
theorem cursorCondition_iff (above : Bool) (t : Nat) (i : String) (k : Nat × String) :
    cursorCondition above t i k = true ↔
      if above then t < k.1 ∧ idLt i k.2 = true else k.1 < t ∧ idLt k.2 i = true := by
  cases above <;> simp only [cursorCondition, if_true, Bool.false_eq_true, if_false, Bool.and_eq_true,
    decide_eq_true_eq, Bool.or_eq_true, beq_iff_eq]
  · exact and_congr_right fun h => or_iff_right (Nat.ne_of_lt h)
  · exact and_congr_right fun h => or_iff_right (Nat.ne_of_gt h)

/-- So a row that passes the code's condition is beyond the cursor row in the
`(created_at, id)` order: the code's window lies inside the reference one. -/
theorem keyLt_of_cursorCondition {above : Bool} {t : Nat} {i : String} {k : Nat × String}
    (h : cursorCondition above t i k = true) :
    (if above then keyLt (t, i) k else keyLt k (t, i)) = true := by
  rw [cursorCondition_iff] at h
  cases above <;> simp only [if_true, Bool.false_eq_true, if_false] at h ⊢ <;> simp [keyLt, h.1]

/-! ## get_blocks_async -/

/-- The arguments of `get_blocks_async`, with the signature's defaults. -/
structure BlockQuery where
  label : Option String := none
  isTemplate : Option Bool := none
  templateName : Option String := none
  identityId : Option String := none
  identifierKeys : Option (List String) := none
  projectId : Option String := none
  before : Option String := none
  after : Option String := none
  limit : Option Nat := some 50
  labelSearch : Option String := none
  descriptionSearch : Option String := none
  valueSearch : Option String := none
  connectedToAgentsCountGt : Option Int := none
  connectedToAgentsCountLt : Option Int := none
  connectedToAgentsCountEq : Option (List Int) := none
  ascending : Bool := true
deriving Repr, DecidableEq

/-- A block's sort key. -/
def Block.key (b : Block) : Nat × String := (b.createdAt, b.id)

/-- The organization and field filters of lines 207–230. Each applies when
its argument is truthy; a search is `ilike` on `f"%{s}%"`, and on a null
`description` it is null, so false. -/
def BlockQuery.fieldFilter (q : BlockQuery) (actor : User) (b : Block) : Bool :=
  b.organizationId == actor.organizationId &&
    (!truthy q.label || some b.label == q.label) &&
    (q.isTemplate.all (b.isTemplate == ·)) &&
    (!truthy q.templateName || b.templateName == q.templateName) &&
    (!truthy q.projectId || b.projectId == q.projectId) &&
    (!truthy q.labelSearch || truthy q.label || ilike b.label (searchPattern (q.labelSearch.getD ""))) &&
    (!truthy q.descriptionSearch ||
      b.description.any fun d => ilike d (searchPattern (q.descriptionSearch.getD ""))) &&
    (!truthy q.valueSearch || ilike b.value (searchPattern (q.valueSearch.getD "")))

/-- `agent_count_subquery`: the `blocks_agents` rows of a block. -/
def Database.agentCount (db : Database) (blockId : String) : Nat :=
  (db.blocksAgents.filter (·.blockId = blockId)).length

def BlockQuery.needsAgentCountJoin (q : BlockQuery) : Bool :=
  q.connectedToAgentsCountGt.isSome || q.connectedToAgentsCountLt.isSome ||
    q.connectedToAgentsCountEq.isSome

/-- Line 249: the outer join only when `lt` is given or `eq` holds 0. -/
def BlockQuery.needsLeftJoin (q : BlockQuery) : Bool :=
  q.connectedToAgentsCountLt.isSome || q.connectedToAgentsCountEq.any (·.contains 0)

/-- Lines 232–271: the join with the count subquery and its conditions. The
inner join keeps only blocks that have a `blocks_agents` row; the outer one
coalesces a missing count to 0. -/
def BlockQuery.countFilter (q : BlockQuery) (db : Database) (b : Block) : Bool :=
  if q.needsAgentCountJoin then
    let c : Int := db.agentCount b.id
    (q.needsLeftJoin || 0 < db.agentCount b.id) &&
      (q.connectedToAgentsCountGt.all (· < c)) && (q.connectedToAgentsCountLt.all (c < ·)) &&
      q.connectedToAgentsCountEq.all (·.contains c)
  else true

/-- The identities linked to a block (`BlockModel.identities`). -/
def Database.identitiesOf (db : Database) (blockId : String) : List Identity :=
  (db.identitiesBlocks.filter (·.blockId = blockId)).filterMap fun ib =>
    db.identities.find? (·.id = ib.identityId)

/-- The rows the identity joins of lines 273–281 make of one block row: one
per linked identity passing each join's filter. -/
def BlockQuery.identityRows (q : BlockQuery) (db : Database) (b : Block) : Nat :=
  let linked := db.identitiesOf b.id
  let byKeys := match q.identifierKeys with
    | some keys => if keys.isEmpty then 1 else (linked.filter fun i => keys.contains i.identifierKey).length
    | none => 1
  let byId := if truthy q.identityId then (linked.filter fun i => some i.id == q.identityId).length else 1
  byKeys * byId

def BlockQuery.needsDistinct (q : BlockQuery) : Bool :=
  q.needsAgentCountJoin || q.identifierKeys.any (!·.isEmpty) || truthy q.identityId

/-- The first row of each id. -/
def firstById (rows : List Block) : List Block :=
  rows.foldr (fun b acc => b :: acc.filter (·.id != b.id)) []

/-- `DISTINCT ON (id) ... ORDER BY id, created_at`: sorted by `(id, created_at)`,
the first row of each id kept. -/
def distinctById (ascending : Bool) (rows : List Block) : List Block :=
  let idFirst (a b : Block) : Bool := idLt a.id b.id || (a.id == b.id && a.createdAt < b.createdAt)
  firstById (rows.insertionSort fun a b => (if ascending then !idFirst b a else !idFirst a b) = true)

/-- `BlockManager.get_blocks_async`. -/
def getBlocksAsync (db : Database) (actor : User) (q : BlockQuery) : List Block :=
  let rows := (db.blocks.filter fun b => q.fieldFilter actor b && q.countFilter db b).flatMap fun b =>
    List.replicate (q.identityRows db b) b
  let rows := cursorWindow Block.key q.ascending (cursorKey Block.key db.blocks q.after)
    (cursorKey Block.key db.blocks q.before) rows
  applyLimit q.limit (if q.needsDistinct then distinctById q.ascending rows
    else sortByKey Block.key q.ascending rows)

/-! ### What the pipeline returns -/

theorem applyLimit_sublist {α : Type} (limit : Option Nat) (rows : List α) :
    (applyLimit limit rows).Sublist rows := by
  unfold applyLimit
  split
  · exact List.take_sublist _ _
  · exact List.Sublist.refl _

theorem firstById_sublist : ∀ rows : List Block, (firstById rows).Sublist rows
  | [] => List.Sublist.refl _
  | _ :: rows => ((List.filter_sublist _).trans (firstById_sublist rows)).cons₂ _

theorem firstById_nodup : ∀ rows : List Block, ((firstById rows).map (·.id)).Nodup
  | [] => List.nodup_nil
  | b :: rows => by
      rw [firstById, List.foldr_cons, List.map_cons, List.nodup_cons]
      refine ⟨fun h => ?_, ((List.filter_sublist _).map _).nodup (firstById_nodup rows)⟩
      obtain ⟨x, hx, he⟩ := List.mem_map.mp h
      simp [(List.mem_filter.mp hx).2, he] at hx

/-- Where rows of one id are one row, `DISTINCT ON (id)` keeps every row. -/
theorem mem_firstById {rows : List Block} (h : ∀ x ∈ rows, ∀ y ∈ rows, x.id = y.id → x = y)
    {b : Block} (hb : b ∈ rows) : b ∈ firstById rows := by
  induction rows with
  | nil => cases hb
  | cons x rows ih =>
      rw [firstById, List.foldr_cons]
      by_cases hx : b.id = x.id
      · rw [h b hb x (List.mem_cons_self _ _) hx]
        exact List.mem_cons_self _ _
      · refine List.mem_cons_of_mem _ (List.mem_filter.mpr ⟨?_, by simpa using hx⟩)
        exact ih (fun y hy z hz => h y (List.mem_cons_of_mem _ hy) z (List.mem_cons_of_mem _ hz))
          ((List.mem_cons.mp hb).resolve_left fun e => hx (e ▸ rfl))

theorem countFilter_of_needsAgentCountJoin {q : BlockQuery} (h : q.needsAgentCountJoin = false)
    (db : Database) (b : Block) : q.countFilter db b = true := by
  simp [BlockQuery.countFilter, h]

theorem identityRows_eq_one {q : BlockQuery} (hk : q.identifierKeys.any (!·.isEmpty) = false)
    (hi : truthy q.identityId = false) (db : Database) (b : Block) : q.identityRows db b = 1 := by
  unfold BlockQuery.identityRows
  rcases he : q.identifierKeys with _ | keys
  · simp [hi]
  · rw [he] at hk
    simp_all

theorem BlockQuery.organizationId_of_fieldFilter {q : BlockQuery} {actor : User} {b : Block}
    (h : q.fieldFilter actor b = true) : b.organizationId = actor.organizationId := by
  simp only [BlockQuery.fieldFilter, Bool.and_eq_true, beq_iff_eq] at h
  exact h.1.1.1.1.1.1.1

/-- A listed block is a stored row that passes the field filters, the count
filter and the cursor conditions. -/
theorem mem_getBlocksAsync {db : Database} {actor : User} {q : BlockQuery} {b : Block}
    (h : b ∈ getBlocksAsync db actor q) :
    b ∈ db.blocks ∧ q.fieldFilter actor b = true ∧ q.countFilter db b = true ∧
      inWindow q.ascending (cursorKey Block.key db.blocks q.after)
        (cursorKey Block.key db.blocks q.before) b.key = true := by
  unfold getBlocksAsync at h
  have h := (applyLimit_sublist _ _).subset h
  have hw : b ∈ cursorWindow Block.key q.ascending (cursorKey Block.key db.blocks q.after)
      (cursorKey Block.key db.blocks q.before) ((db.blocks.filter fun b =>
        q.fieldFilter actor b && q.countFilter db b).flatMap fun b =>
          List.replicate (q.identityRows db b) b) := by
    split at h
    · exact (List.perm_insertionSort _ _).mem_iff.mp ((firstById_sublist _).subset h)
    · exact (sortByKey_perm _ _ _).mem_iff.mp h
  obtain ⟨hr, hin⟩ := List.mem_filter.mp hw
  obtain ⟨b', hb', hrep⟩ := List.mem_flatMap.mp hr
  obtain rfl := List.eq_of_mem_replicate hrep
  obtain ⟨hmem, hf⟩ := List.mem_filter.mp hb'
  rw [Bool.and_eq_true] at hf
  exact ⟨hmem, hf.1, hf.2, hin⟩

theorem blockKeys_filter {db : Database} (hk : db.BlockKeys) (p : Block → Bool) :
    ((db.blocks.filter p).map Block.key).Nodup :=
  List.Nodup.of_map Prod.snd (by rw [List.map_map]; exact ((List.filter_sublist _).map _).nodup hk)

/-- On the plain path (no count or identity filter) the page is the first
`limit` matching blocks in `(created_at, id)` order that pass the cursor
conditions. -/
theorem getBlocksAsync_plain {db : Database} (hk : db.BlockKeys) (actor : User) {q : BlockQuery}
    (hd : q.needsDistinct = false) :
    getBlocksAsync db actor q = applyLimit q.limit
      ((sortByKey Block.key q.ascending (db.blocks.filter (q.fieldFilter actor))).filter fun b =>
        inWindow q.ascending (cursorKey Block.key db.blocks q.after)
          (cursorKey Block.key db.blocks q.before) b.key) := by
  simp only [BlockQuery.needsDistinct, Bool.or_eq_false_iff] at hd
  obtain ⟨⟨hj, hkeys⟩, hi⟩ := hd
  simp only [getBlocksAsync, identityRows_eq_one hkeys hi, List.replicate_one, List.flatMap_singleton',
    countFilter_of_needsAgentCountJoin hj, Bool.and_true, BlockQuery.needsDistinct, hj, hkeys, hi, Bool.or_self, Bool.false_eq_true, if_false]
  rw [sortByKey_cursorWindow Block.key _ (blockKeys_filter hk _)]

/-- The sort key of `ORDER BY id, created_at`. -/
def Block.idKey (b : Block) : String × Nat := (b.id, b.createdAt)

/-- The strict order of `ORDER BY id, created_at`. -/
def idKeyLt : String × Nat → String × Nat → Bool := lexLt idLt fun a b => decide (a < b)

theorem idKeyLt_strictTotal : StrictTotal idKeyLt := idLt_strictTotal.lex natLt_strictTotal

/-- `DISTINCT ON (id)` keeps the first row of each id after a sort on `(id, created_at)`. -/
theorem distinctById_eq (ascending : Bool) (rows : List Block) :
    distinctById ascending rows = firstById (sortBy idKeyLt Block.idKey ascending rows) := rfl

theorem mem_flatMap_replicate {rows : List Block} {n : Block → Nat} {b : Block} :
    b ∈ rows.flatMap (fun b => List.replicate (n b) b) ↔ b ∈ rows ∧ 0 < n b := by
  simp [Nat.pos_iff_ne_zero]

/-- On stored rows, `DISTINCT ON (id)` over the rows the joins repeat lists
each row that made at least one once, in `(id, created_at)` order. -/
theorem distinctById_flatMap_replicate {db : Database} (hk : db.BlockKeys) (ascending : Bool)
    {rows : List Block} (hs : rows.Sublist db.blocks) (n : Block → Nat) (p : Block → Bool) :
    distinctById ascending ((rows.flatMap fun b => List.replicate (n b) b).filter p) =
      (sortBy idKeyLt Block.idKey ascending (rows.filter fun b => 0 < n b)).filter p := by
  have hstored {x : Block} (hx : x ∈ (rows.flatMap fun b => List.replicate (n b) b).filter p) :
      x ∈ db.blocks :=
    hs.subset (mem_flatMap_replicate.mp (List.mem_filter.mp hx).1).1
  have hmem (x : Block) :
      x ∈ distinctById ascending ((rows.flatMap fun b => List.replicate (n b) b).filter p) ↔
        x ∈ (sortBy idKeyLt Block.idKey ascending (rows.filter fun b => 0 < n b)).filter p := by
    rw [distinctById_eq]
    constructor
    · intro hx
      have hx := (sortBy_perm _ _ _).mem_iff.mp ((firstById_sublist _).subset hx)
      obtain ⟨hr, hp⟩ := List.mem_filter.mp hx
      obtain ⟨hr, hn⟩ := mem_flatMap_replicate.mp hr
      exact List.mem_filter.mpr ⟨(sortBy_perm _ _ _).mem_iff.mpr (List.mem_filter.mpr ⟨hr, by simpa using hn⟩), hp⟩
    · intro hx
      obtain ⟨hr, hp⟩ := List.mem_filter.mp hx
      obtain ⟨hr, hn⟩ := List.mem_filter.mp ((sortBy_perm _ _ _).mem_iff.mp hr)
      refine mem_firstById (fun y hy z hz => ?_) ((sortBy_perm _ _ _).mem_iff.mpr ?_)
      · exact eq_of_mem_of_id hk (hstored ((sortBy_perm _ _ _).mem_iff.mp hy))
          (hstored ((sortBy_perm _ _ _).mem_iff.mp hz))
      · exact List.mem_filter.mpr ⟨mem_flatMap_replicate.mpr ⟨hr, by simpa using hn⟩, hp⟩
  have hnodup : (db.blocks.map (·.id)).Nodup → db.blocks.Nodup := List.Nodup.of_map _
  refine eq_of_perm_of_sortedBy Block.idKey ascending idKeyLt_strictTotal
    ((List.perm_ext_iff_of_nodup ?_ ?_).mpr hmem) ?_ ?_ ?_
  · exact List.Nodup.of_map _ (firstById_nodup _)
  · exact (List.filter_sublist _).nodup ((sortBy_perm _ _ _).nodup_iff.mpr
      ((List.filter_sublist _).nodup (hs.nodup (hnodup hk))))
  · exact (sortBy_sorted _ _ idKeyLt_strictTotal _).sublist (firstById_sublist _)
  · exact (sortBy_sorted _ _ idKeyLt_strictTotal _).filter p
  · exact List.Nodup.of_map Prod.fst (by rw [List.map_map]; exact firstById_nodup _)

/-- **The `DISTINCT` path.** With a count or identity filter, on blocks with
distinct ids, the page is the first `limit` matching blocks that make at
least one row through the identity joins, each listed once, in
`(id, created_at)` order (reversed when descending), that pass the cursor
conditions. However many identities a block matches it is listed once, and
the order is the id's, not the creation time's. -/
theorem getBlocksAsync_distinct {db : Database} (hk : db.BlockKeys) (actor : User) {q : BlockQuery}
    (hd : q.needsDistinct = true) :
    getBlocksAsync db actor q = applyLimit q.limit
      ((sortBy idKeyLt Block.idKey q.ascending
        ((db.blocks.filter fun b => q.fieldFilter actor b && q.countFilter db b).filter fun b =>
          0 < q.identityRows db b)).filter fun b =>
        inWindow q.ascending (cursorKey Block.key db.blocks q.after)
          (cursorKey Block.key db.blocks q.before) b.key) := by
  simp only [getBlocksAsync, hd, if_true, cursorWindow]
  rw [distinctById_flatMap_replicate hk _ (List.filter_sublist _)]

/-- The sample block linked to two identities that share an identifier key. -/
def twoIdentitiesDatabase : Database :=
  { sampleDatabase with
    identities := [⟨"identity-1", "alice"⟩, ⟨"identity-2", "alice"⟩]
    identitiesBlocks := [⟨"identity-1", "block-1"⟩, ⟨"identity-2", "block-1"⟩] }

theorem getBlocksAsync_distinct_sample :
    let q : BlockQuery := { identifierKeys := some ["alice"] }
    twoIdentitiesDatabase.BlockKeys ∧ q.needsDistinct = true ∧
      q.identityRows twoIdentitiesDatabase sampleBlock = 2 ∧
      getBlocksAsync twoIdentitiesDatabase sampleUser q = applyLimit q.limit
        ((sortBy idKeyLt Block.idKey q.ascending
          ((twoIdentitiesDatabase.blocks.filter fun b =>
            q.fieldFilter sampleUser b && q.countFilter twoIdentitiesDatabase b).filter
            fun b => 0 < q.identityRows twoIdentitiesDatabase b)).filter fun b =>
          inWindow q.ascending (cursorKey Block.key twoIdentitiesDatabase.blocks q.after)
            (cursorKey Block.key twoIdentitiesDatabase.blocks q.before) b.key) ∧
      getBlocksAsync twoIdentitiesDatabase sampleUser q = [sampleBlock] :=
  ⟨by decide, rfl, by decide, getBlocksAsync_distinct (by decide) sampleUser rfl, by decide⟩

/-! ### Where the pipeline departs from the reference page -/

/-- A block of `sampleUser`'s organization created at tick `t`. -/
def listedBlock (id : String) (t : Nat) : Block := { sampleBlock with id := id, createdAt := t }

/-- Two blocks created in the same tick. -/
def tiedDatabase : Database := { sampleDatabase with blocks := [listedBlock "b1" 0, listedBlock "b2" 0] }

/-- Two blocks, each attached to an agent, whose id order is the reverse of
their creation order. -/
def idOrderDatabase : Database :=
  { sampleDatabase with
    blocks := [listedBlock "a" 1, listedBlock "b" 0]
    blocksAgents := [⟨"a", "agent-1"⟩, ⟨"b", "agent-2"⟩] }

/-- With a count filter the query goes through `DISTINCT ON (id)`, ordered by
id: the first page is the block with the smaller id, not the earlier one. -/
theorem getBlocksAsync_distinct_orders_by_id :
    let q : BlockQuery := { connectedToAgentsCountGt := some 0, limit := some 1 }
    (∀ b ∈ idOrderDatabase.blocks,
      q.fieldFilter sampleUser b = true ∧ (0 : Int) < idOrderDatabase.agentCount b.id) ∧
      getBlocksAsync idOrderDatabase sampleUser q = [listedBlock "a" 1] ∧
      referencePage Block.key true none none q.limit idOrderDatabase.blocks = [listedBlock "b" 0] := by
  decide

/-- A block with no agent has count 0, which is above a threshold of -1; the
inner join chosen for a lone `gt` drops it. -/
theorem getBlocksAsync_negative_gt_drops_unattached :
    let q : BlockQuery := { connectedToAgentsCountGt := some (-1) }
    sampleDatabase.agentCount sampleBlock.id = 0 ∧ q.fieldFilter sampleUser sampleBlock = true ∧
      (-1 : Int) < sampleDatabase.agentCount sampleBlock.id ∧
      getBlocksAsync sampleDatabase sampleUser q = [] := by
  decide

/-- `_` in a search string is a wildcard: a value without any `_` passes the
search for `"_"`. -/
theorem getBlocksAsync_underscore_matches_any :
    getBlocksAsync sampleDatabase sampleUser { valueSearch := some "_" } = [sampleBlock] ∧
      ¬caseInsensitiveInfix "_" sampleBlock.value := by
  decide

/-! ## get_agents_for_block_async -/

/-- The pagination arguments of `get_agents_for_block_async`. -/
structure AgentQuery where
  before : Option String := none
  after : Option String := none
  limit : Option Nat := some 50
  ascending : Bool := true
deriving Repr, DecidableEq

def Agent.key (a : Agent) : Nat × String := (a.createdAt, a.id)

/-- The actor's agents with a `blocks_agents` row for the block. -/
def Database.attachedAgents (db : Database) (blockId : String) (actor : User) : List Agent :=
  db.agents.filter fun a =>
    (db.blocksAgents.any fun ba => ba.blockId == blockId && ba.agentId == a.id) &&
      a.organizationId == actor.organizationId

/-- `BlockManager.get_agents_for_block_async`: the actor's agents attached to
the block, with the same cursor conditions, order and limit. -/
def getAgentsForBlockAsync (db : Database) (blockId : String) (actor : User) (q : AgentQuery) :
    List Agent :=
  let rows := cursorWindow Agent.key q.ascending (cursorKey Agent.key db.agents q.after)
    (cursorKey Agent.key db.agents q.before) (db.attachedAgents blockId actor)
  applyLimit q.limit (sortByKey Agent.key q.ascending rows)

/-- The page of a block's agents, on agents with distinct ids: the first
`limit` attached agents in `(created_at, id)` order that pass the cursor
conditions. -/
theorem getAgentsForBlockAsync_page {db : Database} (hk : (db.agents.map (·.id)).Nodup)
    (blockId : String) (actor : User) (q : AgentQuery) :
    getAgentsForBlockAsync db blockId actor q = applyLimit q.limit
      ((sortByKey Agent.key q.ascending (db.attachedAgents blockId actor)).filter fun a =>
        inWindow q.ascending (cursorKey Agent.key db.agents q.after)
          (cursorKey Agent.key db.agents q.before) a.key) := by
  have hka : ((db.attachedAgents blockId actor).map Agent.key).Nodup :=
    List.Nodup.of_map Prod.snd (by rw [List.map_map]; exact ((List.filter_sublist _).map _).nodup hk)
  simp only [getAgentsForBlockAsync]
  rw [sortByKey_cursorWindow Agent.key _ hka]

/-- Two agents of `sampleUser`'s organization attached to `block-1`, created
in the same tick. -/
def tiedAgentsDatabase : Database :=
  { sampleDatabase with
    agents := [⟨"a1", "org-1", 0⟩, ⟨"a2", "org-1", 0⟩]
    blocksAgents := [⟨"block-1", "a1"⟩, ⟨"block-1", "a2"⟩] }

/-- The page after a cursor row tied with the next row on `created_at`: the
reference window holds the second row, the code's conditions drop it, for
blocks and for a block's agents alike. -/
theorem listing_after_tied_cursor :
    let q : BlockQuery := { after := some "b1" }
    getBlocksAsync tiedDatabase sampleUser q = [] ∧
      referencePage Block.key true (some (0, "b1")) none q.limit
        (tiedDatabase.blocks.filter (q.fieldFilter sampleUser)) = [listedBlock "b2" 0] ∧
      getAgentsForBlockAsync tiedAgentsDatabase "block-1" sampleUser { after := some "a1" } = [] ∧
      referencePage Agent.key true (some (0, "a1")) none (some 50) tiedAgentsDatabase.agents =
        [⟨"a2", "org-1", 0⟩] := by
  decide

/-! ## get_all_blocks_by_ids_async -/

/-- `BlockManager.get_all_blocks_by_ids_async`: the `IN` query's rows, as the
table lists them; positional with `None`s only when fewer rows than ids came
back. -/
def getAllBlocksByIdsAsync (db : Database) (blockIds : List String) (actor : Option User) :
    List (Option Block) :=
  if blockIds.isEmpty then []
  else
    let blocks := db.blocks.filter fun b =>
      blockIds.contains b.id && actor.all (b.organizationId == ·.organizationId)
    if blocks.length < blockIds.length then blockIds.map fun blockId => blocks.find? (·.id == blockId)
    else blocks.map some

/-- Two blocks, listed in table order `a`, `b`. -/
def abDatabase : Database := { sampleDatabase with blocks := [listedBlock "a" 0, listedBlock "b" 0] }

/-- Every requested id is found, so the rows come back in table order, not in
the requested order. -/
theorem getAllBlocksByIdsAsync_table_order :
    getAllBlocksByIdsAsync abDatabase ["b", "a"] (some sampleUser) =
        [some (listedBlock "a" 0), some (listedBlock "b" 0)] ∧
      (["b", "a"].map fun i => abDatabase.blocks.find? (·.id == i)) =
        [some (listedBlock "b" 0), some (listedBlock "a" 0)] := by
  decide

/-- The answer `get_all_blocks_by_ids_async` documents: position `i` holds the block with id
`blockIds[i]` when it exists and the actor may see it, `None` otherwise. -/
def positionalAnswer (db : Database) (blockIds : List String) (actor : Option User) :
    List (Option Block) :=
  blockIds.map fun i =>
    (db.blocks.find? (·.id == i)).filter fun b => actor.all (b.organizationId == ·.organizationId)

/-- The one element of a list that satisfies `p` is what `find?` returns. -/
theorem find?_eq_some_of_unique {α : Type} {p : α → Bool} {l : List α} {b : α} (hb : b ∈ l)
    (hp : p b = true) (hu : ∀ x ∈ l, p x = true → x = b) : l.find? p = some b := by
  rcases h : l.find? p with _ | c
  · exact absurd hp (List.find?_eq_none.mp h b hb)
  · rw [hu c (List.mem_of_find?_eq_some h) (List.find?_some h)]

/-- Under the primary key, looking an id up among the rows the `IN` query
returns is looking it up in the table and checking the row is visible. -/
theorem find?_visible {db : Database} (hk : db.BlockKeys) {blockIds : List String} {i : String}
    (hi : i ∈ blockIds) (actor : Option User) :
    (db.blocks.filter fun b => blockIds.contains b.id && actor.all (b.organizationId == ·.organizationId)).find?
        (·.id == i) =
      (db.blocks.find? (·.id == i)).filter fun b => actor.all (b.organizationId == ·.organizationId) := by
  rcases h : db.blocks.find? (·.id == i) with _ | b <;> rw [h]
  · exact List.find?_eq_none.mpr fun x hx => List.find?_eq_none.mp h x (List.mem_filter.mp hx).1
  have hb := List.mem_of_find?_eq_some h
  have hbi : b.id = i := by simpa using List.find?_some h
  have hu : ∀ x ∈ db.blocks, (x.id == i) = true → x = b := fun x hx he =>
    eq_of_mem_of_id hk hx hb (by simpa [hbi] using he)
  cases hv : actor.all (b.organizationId == ·.organizationId)
  · simp only [Option.filter, hv, Bool.false_eq_true, if_false]
    refine List.find?_eq_none.mpr fun x hx he => ?_
    obtain ⟨hx, hvx⟩ := List.mem_filter.mp hx
    rw [hu x hx he, hv, Bool.and_false] at hvx
    cases hvx
  · simp only [Option.filter, hv, if_true]
    refine find?_eq_some_of_unique (List.mem_filter.mpr ⟨hb, ?_⟩) (by simpa using hbi)
      fun x hx he => hu x (List.mem_filter.mp hx).1 he
    simp [hbi, hi, hv]

/-- **Ids to blocks.** Under the primary key, `get_all_blocks_by_ids_async`
returns the positional answer up to order: a permutation of it, and the answer
itself whenever some id is missing or hidden. Only the order of the path where
every id is found can differ. -/
theorem getAllBlocksByIdsAsync_perm (db : Database) (hk : db.BlockKeys) (blockIds : List String)
    (actor : Option User) :
    (getAllBlocksByIdsAsync db blockIds actor).Perm (positionalAnswer db blockIds actor) ∧
      (none ∈ positionalAnswer db blockIds actor →
        getAllBlocksByIdsAsync db blockIds actor = positionalAnswer db blockIds actor) := by
  set blocks := db.blocks.filter fun b =>
    blockIds.contains b.id && actor.all (b.organizationId == ·.organizationId) with hblocks
  have hpos : (blockIds.map fun i => blocks.find? (·.id == i)) = positionalAnswer db blockIds actor :=
    List.map_congr_left fun i hi => find?_visible hk hi actor
  have hnodup : (blocks.map (·.id)).Nodup := ((List.filter_sublist _).map _).nodup hk
  unfold getAllBlocksByIdsAsync
  by_cases he : blockIds.isEmpty
  · simp [he, positionalAnswer, List.isEmpty_iff.mp he]
  simp only [he, if_false, Bool.false_eq_true, ← hblocks]
  by_cases hlt : blocks.length < blockIds.length
  · rw [if_pos hlt, hpos]
    exact ⟨List.Perm.refl _, fun _ => rfl⟩
  rw [if_neg hlt]
  have hperm : (blocks.map (·.id)).Perm blockIds := by
    refine (List.subperm_of_subset hnodup fun x hx => ?_).perm_of_length_le (by simp; omega)
    obtain ⟨b, hb, rfl⟩ := List.mem_map.mp hx
    exact List.elem_iff.mp (Bool.and_eq_true _ _ ▸ (List.mem_filter.mp hb).2).1
  have hsome : blocks.map some = (blocks.map (·.id)).map fun i => blocks.find? (·.id == i) := by
    rw [List.map_map]
    exact List.map_congr_left fun b hb =>
      (find?_eq_some_of_unique hb (by simp) fun x hx h => List.inj_on_of_nodup_map hnodup hx hb
        (by simpa using h)).symm
  refine ⟨hsome ▸ hpos ▸ hperm.map _, fun hn => ?_⟩
  rw [← hpos] at hn
  obtain ⟨i, hi, hn⟩ := List.mem_map.mp hn
  obtain ⟨b, hb, rfl⟩ := List.mem_map.mp (hperm.mem_iff.mpr hi)
  exact absurd (beq_self_eq_true b.id) (List.find?_eq_none.mp hn b hb)

theorem getAllBlocksByIdsAsync_perm_sample :
    abDatabase.BlockKeys ∧
      (getAllBlocksByIdsAsync abDatabase ["b", "a"] (some sampleUser)).Perm
        (positionalAnswer abDatabase ["b", "a"] (some sampleUser)) ∧
      none ∈ positionalAnswer abDatabase ["b", "c", "a"] (some sampleUser) ∧
      getAllBlocksByIdsAsync abDatabase ["b", "c", "a"] (some sampleUser) =
        positionalAnswer abDatabase ["b", "c", "a"] (some sampleUser) :=
  have hk : abDatabase.BlockKeys := by decide
  have hn : none ∈ positionalAnswer abDatabase ["b", "c", "a"] (some sampleUser) := by decide
  ⟨hk, (getAllBlocksByIdsAsync_perm abDatabase hk _ _).1, hn, (getAllBlocksByIdsAsync_perm abDatabase hk _ _).2 hn⟩

end Letta
