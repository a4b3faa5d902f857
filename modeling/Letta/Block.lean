import Mathlib.Data.String.Basic

/-!
# Blocks, history rows and the store

The data model of `letta/services/block_manager.py`: the `block` table
(`BlockModel`), the `block_history` table (`BlockHistory`), the
`blocks_agents` and identity association tables the listing joins, and the
few pieces of the ORM the manager leans on.

A `Database` is the committed state of those tables. Every mutating method of
the manager is modelled in two halves, as the code runs it: what it *reads*
and computes, ending in a `Writes` record, and the flush that applies those
writes (`Database.applyWrites`). The flush is where SQLAlchemy's
`version_id_col` check lives: each written block row is an
`UPDATE ... WHERE id = ? AND version = ?` against the version the method
read, and a mismatch rolls the whole transaction back. Serial runs never
trip it; the transaction model in `Letta.Transactions` is built on it.

History row ids are drawn from a counter (`nextHistoryId`), standing in for
the generated UUID primary keys: fresh, and increasing in creation order.
-/

namespace Letta

/-! ## Python values -/

/-- Python truthiness of an optional string: `None` and `""` are false. -/
def truthy : Option String → Bool
  | some s => s != ""
  | none => false

/-- Python's `s[:k]` for an integer `k`; a negative bound counts from the end. -/
def sliceTo (s : String) (k : Int) : String :=
  s.take (if 0 ≤ k then k.toNat else (s.length + k).toNat)

theorem length_sliceTo_of_nonneg (s : String) {k : Int} (hk : 0 ≤ k) :
    (sliceTo s k).length = min k.toNat s.length := by
  rw [sliceTo, if_pos hk, String.take_eq, String.length_mk, List.length_take, String.length]

/-! ## Raising

A call that may raise returns an `Except`; a successful chain is peeled
apart step by step with these two lemmas. -/

theorem bind_eq_ok {ε α β : Type} {x : Except ε α} {f : α → Except ε β} {r : β} :
    x >>= f = .ok r ↔ ∃ a, x = .ok a ∧ f a = .ok r := by
  cases x <;> simp [bind, Except.bind]

theorem map_eq_ok {ε α β : Type} {x : Except ε α} {f : α → β} {r : β} :
    x.map f = .ok r ↔ ∃ a, x = .ok a ∧ f a = r := by
  cases x <;> simp [Except.map]

/-! ## Rows -/

/-- `ActorType` of a history row: who took the checkpoint. -/
inductive ActorType where
  | lettaAgent
  | lettaUser
deriving Repr, DecidableEq

/-- The acting user (`PydanticUser`): only its id and organization are read. -/
structure User where
  id : String
  organizationId : String
deriving Repr, DecidableEq

/-- The five fields a checkpoint copies into `BlockHistory` and an undo or
redo copies back. -/
structure BlockContent where
  description : Option String
  label : String
  value : String
  limit : Int
  metadata : Option (List (String × String))
deriving Repr, DecidableEq

/-- A row of the `block` table (`BlockModel`). `metadata` is `metadata_`, a
JSON object, kept as key/value pairs; `version` is the `version_id_col`. -/
structure Block where
  id : String
  organizationId : String
  label : String
  description : Option String
  value : String
  limit : Int
  metadata : Option (List (String × String))
  isTemplate : Bool
  templateName : Option String
  projectId : Option String
  createdAt : Nat
  currentHistoryEntryId : Option Nat
  version : Nat
deriving Repr, DecidableEq

/-- A block's content fields. -/
def Block.content (b : Block) : BlockContent :=
  ⟨b.description, b.label, b.value, b.limit, b.metadata⟩

/-- A row of the `block_history` table. -/
structure BlockHistory where
  id : Nat
  organizationId : String
  blockId : String
  sequenceNumber : Nat
  description : Option String
  label : String
  value : String
  limit : Int
  metadata : Option (List (String × String))
  actorType : ActorType
  actorId : String
deriving Repr, DecidableEq

/-- The content a history row snapshots. -/
def BlockHistory.content (h : BlockHistory) : BlockContent :=
  ⟨h.description, h.label, h.value, h.limit, h.metadata⟩

/-- A row of `blocks_agents`. -/
structure BlocksAgents where
  blockId : String
  agentId : String
deriving Repr, DecidableEq

/-- An agent row, as far as the listing reads it. -/
structure Agent where
  id : String
  organizationId : String
  createdAt : Nat
deriving Repr, DecidableEq

/-- An identity row, as far as `BlockModel.identities` joins read it. -/
structure Identity where
  id : String
  identifierKey : String
deriving Repr, DecidableEq

/-- A row of the identity–block association table behind `BlockModel.identities`. -/
structure IdentitiesBlocks where
  identityId : String
  blockId : String
deriving Repr, DecidableEq

/-- The committed state of the tables the manager touches. -/
structure Database where
  blocks : List Block
  blockHistory : List BlockHistory
  blocksAgents : List BlocksAgents
  agents : List Agent
  identities : List Identity
  identitiesBlocks : List IdentitiesBlocks
  nextHistoryId : Nat
deriving Repr, DecidableEq

/-- The errors the manager raises or lets through. -/
inductive BlockError where
  | noResultFound (message : String)
  | valueError (message : String)
  | multipleResultsFound
  | staleDataError
  | integrityError
  | notFound (identifier : String)
deriving Repr, DecidableEq

/-! ## Reads -/

/-- `BlockModel.read`, an ORM helper in `sqlalchemy_base` (not under src/):
the point read by id under the actor's organization; a miss raises
`NoResultFound`. -/
def readBlock (db : Database) (blockId : String) (actor : User) : Except BlockError Block :=
  match db.blocks.find? (fun b => b.id = blockId && b.organizationId = actor.organizationId) with
  | some b => .ok b
  | none => .error (.notFound blockId)

/-- `session.merge(use_preloaded_block)`, SQLAlchemy's merge (not under src/):
it loads the stored row by primary key, with no organization filter, and
copies the caller's object onto it. For a versioned mapper a copy whose
version is not the stored row's is rejected. -/
def mergeBlock (db : Database) (preloaded : Block) : Except BlockError Block :=
  match db.blocks.find? (·.id = preloaded.id) with
  | some stored => if stored.version = preloaded.version then .ok preloaded else .error .staleDataError
  | none => .error (.notFound preloaded.id)

/-- Step 1 of `checkpoint_block`, `undo_checkpoint_block` and
`redo_checkpoint_block`: merge the preloaded copy, or read the block. -/
def loadBlock (db : Database) (blockId : String) (actor : User) :
    Option Block → Except BlockError Block
  | some preloaded => mergeBlock db preloaded
  | none => readBlock db blockId actor

/-- `session.get(BlockHistory, id)`. -/
def Database.getHistory (db : Database) (id : Nat) : Option BlockHistory :=
  db.blockHistory.find? (·.id = id)

/-- A block's history rows, in table (creation) order. -/
def Database.historyOf (db : Database) (blockId : String) : List BlockHistory :=
  db.blockHistory.filter (·.blockId = blockId)

/-- The version of the stored row with this id. -/
def Database.versionOf (db : Database) (blockId : String) : Option Nat :=
  (db.blocks.find? (·.id = blockId)).map (·.version)

/-! ## Writes and the flush

Three pieces of the ORM (`letta/orm/block.py` and SQLAlchemy, not under
src/) decide what a commit does with the block rows a call wrote:

* the `validate_value_length` listener runs before every `INSERT` and before
  the flush of every dirty row, net change or not, and raises `ValueError`
  on a non-empty value longer than the limit (`BlockContent.valueLengthOk`);
* the unit of work emits no `UPDATE` for a dirty row whose attributes are
  back at their loaded values, so such a row takes no version check and no
  bump (`RowWrite.changed`); `block.update(...)` stamps `updated_at`, so a row
  written through it always has a change;
* each emitted `UPDATE` is versioned, and a moved `current_history_entry_id`
  is written by a second, post-update statement that bumps the version again
  (`RowWrite.bumps`). -/

/-- `validate_value_length`: `if target.value and len(target.value) >
target.limit: raise ValueError(...)`. An empty value passes whatever the
limit. -/
def BlockContent.valueLengthOk (c : BlockContent) : Bool :=
  decide (c.value = "") || decide ((c.value.length : Int) ≤ c.limit)

/-- The message of the listener's `ValueError`. -/
def valueLengthMessage (b : Block) : String :=
  "Value length (" ++ toString b.value.length ++ ") exceeds the limit (" ++ toString b.limit ++
    ") for block with label \x27" ++ b.label ++ "\x27 and id \x27" ++ b.id ++ "\x27."

/-- A block row a transaction may write back: the row as the session loaded
it, the row after the method's assignments, and whether the method went
through `block.update(...)`, which stamps `updated_at` and
`last_updated_by_id`. -/
structure RowWrite where
  loaded : Block
  row : Block
  stamped : Bool
deriving Repr, DecidableEq

namespace RowWrite

/-- Whether the unit of work emits an `UPDATE` for the row. -/
def changed (r : RowWrite) : Bool := r.stamped || r.row != r.loaded

/-- How far the flush moves `version_id_col`: once for the `UPDATE`, and once
more for the post-update of a moved `current_history_entry_id`. -/
def bumps (r : RowWrite) : Nat :=
  if r.row.currentHistoryEntryId = r.loaded.currentHistoryEntryId then 1 else 2

/-- The stored row after the row's `UPDATE`. -/
def flushed (r : RowWrite) : Block := { r.row with version := r.loaded.version + r.bumps }

/-- A write-back through `block.update(...)`. -/
def update (loaded row : Block) : RowWrite := ⟨loaded, row, true⟩

@[simp] theorem update_changed (loaded row : Block) : (update loaded row).changed = true := rfl

@[simp] theorem update_row (loaded row : Block) : (update loaded row).row = row := rfl

@[simp] theorem update_loaded (loaded row : Block) : (update loaded row).loaded = loaded := rfl

@[simp] theorem flushed_id (r : RowWrite) : r.flushed.id = r.row.id := rfl

@[simp] theorem flushed_organizationId (r : RowWrite) :
    r.flushed.organizationId = r.row.organizationId := rfl

@[simp] theorem flushed_content (r : RowWrite) : r.flushed.content = r.row.content := rfl

@[simp] theorem flushed_currentHistoryEntryId (r : RowWrite) :
    r.flushed.currentHistoryEntryId = r.row.currentHistoryEntryId := rfl

theorem lt_flushed_version (r : RowWrite) : r.loaded.version < r.flushed.version := by
  show r.loaded.version < r.loaded.version + r.bumps
  unfold bumps
  split <;> omega

end RowWrite

/-- What a transaction writes: the `DELETE FROM block_history WHERE block_id = ?
AND sequence_number > ?` of a checkpoint, the history rows it inserts, and the
block rows it wrote. -/
structure Writes where
  pruneAbove : Option (String × Nat)
  insertHistory : List BlockHistory
  updateBlocks : List RowWrite
deriving Repr, DecidableEq

/-- The rows the flush emits an `UPDATE` for. -/
def Writes.emitted (w : Writes) : List RowWrite := w.updateBlocks.filter (·.changed)

/-- Every written row passes the listener. -/
def Writes.valueLengthsOk (w : Writes) : Bool := w.updateBlocks.all (·.row.content.valueLengthOk)

/-- Whether a history row falls under a prune `(block_id, seq)`. -/
def prunes : Option (String × Nat) → BlockHistory → Bool
  | some (blockId, seq), h => h.blockId = blockId && seq < h.sequenceNumber
  | none, _ => false

/-- Every emitted row still has the version it was loaded at. -/
def Database.versionsMatch (db : Database) (rs : List RowWrite) : Bool :=
  rs.all fun r => db.versionOf r.row.id = some r.loaded.version

/-- The block rows after the emitted `UPDATE`s. -/
def Database.writtenBlocks (db : Database) (rs : List RowWrite) : List Block :=
  db.blocks.map fun x => match rs.find? (·.row.id = x.id) with
    | some r => r.flushed
    | none => x

/-- The tables after the flush of `w`, once its checks pass. -/
def Database.flush (db : Database) (w : Writes) : Database :=
  { db with
    blocks := db.writtenBlocks w.emitted
    blockHistory := db.blockHistory.filter (fun h => !prunes w.pruneAbove h) ++ w.insertHistory
    nextHistoryId := db.nextHistoryId + w.insertHistory.length }

/-- Flush and commit a transaction's writes. The listener runs first, on
every written row; then a versioned `UPDATE` that matches no row raises
`StaleDataError`. Either error rolls the whole transaction back. -/
def Database.applyWrites (db : Database) (w : Writes) : Except BlockError Database :=
  match w.updateBlocks.find? (!·.row.content.valueLengthOk) with
  | some r => .error (.valueError (valueLengthMessage r.row))
  | none => if db.versionsMatch w.emitted then .ok (db.flush w) else .error .staleDataError

theorem find?_valueLength_eq_none {w : Writes} :
    w.updateBlocks.find? (!·.row.content.valueLengthOk) = none ↔ w.valueLengthsOk = true := by
  simp [Writes.valueLengthsOk, List.find?_eq_none]

/-- A flush commits exactly when every written row passes the listener and
every emitted row is at its loaded version. -/
theorem applyWrites_eq_ok {db db' : Database} {w : Writes} :
    db.applyWrites w = .ok db' ↔
      w.valueLengthsOk = true ∧ db.versionsMatch w.emitted = true ∧ db.flush w = db' := by
  unfold Database.applyWrites
  split
  · rename_i r hr
    have : w.valueLengthsOk = false := by
      rw [← Bool.not_eq_true, ← find?_valueLength_eq_none, hr]
      exact nofun
    simp [this]
  · rename_i hr
    rw [find?_valueLength_eq_none.mp hr]
    split <;> simp_all

/-- A write the listener rejects raises its `ValueError`. -/
theorem applyWrites_valueError {db : Database} {w : Writes} (h : w.valueLengthsOk = false) :
    ∃ m, db.applyWrites w = .error (.valueError m) := by
  unfold Database.applyWrites
  split
  · exact ⟨_, rfl⟩
  · rename_i hr
    rw [find?_valueLength_eq_none.mp hr] at h
    cases h

/-! ## Updates -/

/-- `BlockUpdate`, as `model_dump(exclude_unset=True, exclude_none=True)` sees
it: a field is `some` when it is set and not `None`. -/
structure BlockUpdate where
  value : Option String := none
  limit : Option Int := none
  label : Option String := none
  description : Option String := none
  metadata : Option (List (String × String)) := none
  isTemplate : Option Bool := none
  templateName : Option String := none
  projectId : Option String := none
deriving Repr, DecidableEq

/-- The `setattr` loop of `update_block`. -/
def BlockUpdate.apply (u : BlockUpdate) (b : Block) : Block :=
  { b with
    value := u.value.getD b.value
    limit := u.limit.getD b.limit
    label := u.label.getD b.label
    description := u.description.orElse fun _ => b.description
    metadata := u.metadata.orElse fun _ => b.metadata
    isTemplate := u.isTemplate.getD b.isTemplate
    templateName := u.templateName.orElse fun _ => b.templateName
    projectId := u.projectId.orElse fun _ => b.projectId }

/-- The same update seen on the five content fields. -/
def BlockUpdate.applyContent (u : BlockUpdate) (c : BlockContent) : BlockContent :=
  ⟨u.description.orElse fun _ => c.description, u.label.getD c.label, u.value.getD c.value,
    u.limit.getD c.limit, u.metadata.orElse fun _ => c.metadata⟩

@[simp] theorem BlockUpdate.apply_content (u : BlockUpdate) (b : Block) :
    (u.apply b).content = u.applyContent b.content := rfl

@[simp] theorem BlockUpdate.apply_id (u : BlockUpdate) (b : Block) : (u.apply b).id = b.id := rfl

@[simp] theorem BlockUpdate.apply_organizationId (u : BlockUpdate) (b : Block) :
    (u.apply b).organizationId = b.organizationId := rfl

@[simp] theorem BlockUpdate.apply_currentHistoryEntryId (u : BlockUpdate) (b : Block) :
    (u.apply b).currentHistoryEntryId = b.currentHistoryEntryId := rfl

@[simp] theorem BlockUpdate.apply_version (u : BlockUpdate) (b : Block) :
    (u.apply b).version = b.version := rfl

/-! ## Primary keys

A `Database` may list two rows under one id; the store cannot. The lemmas
below take the `block` primary key as a hypothesis where they need it. -/

/-- The `block` primary key: no two rows share an id. -/
def Database.BlockKeys (db : Database) : Prop := (db.blocks.map (·.id)).Nodup

instance (db : Database) : Decidable db.BlockKeys := inferInstanceAs (Decidable (List.Nodup _))

theorem find?_key_of_mem {α β : Type} [DecidableEq β] (key : α → β) {l : List α}
    (hl : (l.map key).Nodup) {b : α} (hb : b ∈ l) : l.find? (key · = key b) = some b := by
  induction l with
  | nil => cases hb
  | cons y ys ih =>
      rw [List.map_cons, List.nodup_cons] at hl
      rcases List.mem_cons.mp hb with rfl | hb
      · simp
      · have hne : key y ≠ key b := fun h => hl.1 (h ▸ List.mem_map_of_mem _ hb)
        simp [hne, ih hl.2 hb]

/-- On a list whose keys are distinct, the rows with one row's key are that row. -/
theorem filter_key_of_mem {α β : Type} [DecidableEq β] (key : α → β) {l : List α}
    (hl : (l.map key).Nodup) {b : α} (hb : b ∈ l) : l.filter (key · = key b) = [b] := by
  induction l with
  | nil => cases hb
  | cons y ys ih =>
      rw [List.map_cons, List.nodup_cons] at hl
      rcases List.mem_cons.mp hb with rfl | hb
      · have : ys.filter (key · = key b) = [] := by
          rw [List.filter_eq_nil_iff]
          intro a ha h
          exact hl.1 (of_decide_eq_true h ▸ List.mem_map_of_mem key ha)
        rw [List.filter_cons_of_pos (by simp), this]
      · have hne : key y ≠ key b := fun h => hl.1 (h ▸ List.mem_map_of_mem _ hb)
        rw [List.filter_cons_of_neg (by simpa using hne), ih hl.2 hb]

/-- Two lists with the same keys, whose elements with equal keys are equal, are equal. -/
theorem eq_of_map_eq {α β : Type} (k : α → β) :
    ∀ {l₁ l₂ : List α}, l₂.map k = l₁.map k → (∀ x ∈ l₁, ∀ y ∈ l₂, k y = k x → y = x) → l₂ = l₁
  | [], [], _, _ => rfl
  | [], _ :: _, h, _ => nomatch h
  | _ :: _, [], h, _ => nomatch h
  | x :: xs, y :: ys, h, hxy => by
      rw [List.map_cons, List.map_cons, List.cons.injEq] at h
      rw [hxy x (List.mem_cons_self _ _) y (List.mem_cons_self _ _) h.1,
        eq_of_map_eq k h.2 fun a ha c hc => hxy a (List.mem_cons_of_mem _ ha) c (List.mem_cons_of_mem _ hc)]

/-- Under the primary key, a stored row is determined by its id. -/
theorem eq_of_mem_of_id {db : Database} (hk : db.BlockKeys) {a b : Block} (ha : a ∈ db.blocks)
    (hb : b ∈ db.blocks) (h : a.id = b.id) : a = b :=
  Option.some.inj ((find?_key_of_mem Block.id hk ha).symm.trans (h ▸ find?_key_of_mem Block.id hk hb))

theorem versionOf_of_mem {db : Database} (hk : db.BlockKeys) {b : Block} (hb : b ∈ db.blocks) :
    db.versionOf b.id = some b.version := by
  simp [Database.versionOf, find?_key_of_mem Block.id hk hb]

/-- What a successful read returns: a stored row with that id, of the actor's
organization. -/
theorem readBlock_eq_ok {db : Database} {blockId : String} {actor : User} {b : Block} :
    readBlock db blockId actor = .ok b ↔
      db.blocks.find? (fun b => b.id = blockId && b.organizationId = actor.organizationId) = some b := by
  unfold readBlock
  split
  · rename_i b' h
    simp [h]
  · rename_i h
    simp [h]

theorem readBlock_error {db : Database} {blockId : String} {actor : User} {e : BlockError}
    (h : readBlock db blockId actor = .error e) : e = .notFound blockId := by
  unfold readBlock at h
  split at h
  · cases h
  · exact (Except.error.inj h).symm

theorem mem_of_readBlock {db : Database} {blockId : String} {actor : User} {b : Block}
    (h : readBlock db blockId actor = .ok b) :
    b ∈ db.blocks ∧ b.id = blockId ∧ b.organizationId = actor.organizationId := by
  have h := List.find?_some (readBlock_eq_ok.mp h)
  simp only [Bool.and_eq_true, decide_eq_true_eq] at h
  exact ⟨List.mem_of_find?_eq_some (readBlock_eq_ok.mp (by assumption)), h⟩

/-- A filter-map keyed by its sources' ids, looked up by the id of one of them. -/
theorem find?_filterMap_id {β : Type} (key : β → String) {l : List Block} (hl : (l.map (·.id)).Nodup)
    {g : Block → Option β} (hg : ∀ b r, g b = some r → key r = b.id) {x : Block} (hx : x ∈ l) :
    (l.filterMap g).find? (key · = x.id) = g x := by
  induction l with
  | nil => cases hx
  | cons y ys ih =>
      rw [List.map_cons, List.nodup_cons] at hl
      have hys : ∀ r ∈ ys.filterMap g, key r ≠ y.id := by
        intro r hr h
        obtain ⟨a, ha, hga⟩ := List.mem_filterMap.mp hr
        exact hl.1 (h ▸ hg a r hga ▸ List.mem_map_of_mem _ ha)
      rcases List.mem_cons.mp hx with rfl | hx
      · rcases hgx : g x with _ | r
        · simp only [List.filterMap_cons, hgx]
          exact List.find?_eq_none.mpr fun r hr => by simpa using hys r hr
        · simp [List.filterMap_cons, hgx, hg x r hgx]
      · have hne : y.id ≠ x.id := fun h => hl.1 (h ▸ List.mem_map_of_mem _ hx)
        rcases hgy : g y with _ | r
        · simp only [List.filterMap_cons, hgy]
          exact ih hl.2 hx
        · have : key r ≠ x.id := hg y r hgy ▸ hne
          simp [List.filterMap_cons, hgy, this, ih hl.2 hx]

/-- The `UPDATE`s of rows staged from the stored ones. -/
theorem writtenBlocks_filterMap {db : Database} (hk : db.BlockKeys) {g : Block → Option RowWrite}
    (hg : ∀ b r, g b = some r → r.row.id = b.id) :
    db.writtenBlocks (db.blocks.filterMap g) =
      db.blocks.map fun x => match g x with
        | some r => r.flushed
        | none => x := by
  apply List.map_congr_left
  intro x hx
  rw [show (db.blocks.filterMap g).find? (·.row.id = x.id) = g x from find?_filterMap_id _ hk hg hx]

/-- Rows staged from the stored ones are at the versions stored. -/
theorem versionsMatch_filterMap {db : Database} (hk : db.BlockKeys) {g : Block → Option RowWrite}
    (hg : ∀ b r, g b = some r → r.row.id = b.id ∧ r.loaded = b) (p : RowWrite → Bool) :
    db.versionsMatch ((db.blocks.filterMap g).filter p) = true := by
  simp only [Database.versionsMatch, List.all_eq_true, List.mem_filter, List.mem_filterMap,
    decide_eq_true_eq]
  rintro r ⟨⟨b, hb, hgb⟩, -⟩
  rw [(hg b r hgb).1, (hg b r hgb).2]
  exact versionOf_of_mem hk hb

/-- The database after a flush that stores the row `b` in place of the row
with its id, prunes with `p` and inserts `ins`. -/
def Database.commitRow (db : Database) (b : Block) (p : Option (String × Nat))
    (ins : List BlockHistory) : Database :=
  { db with
    blocks := db.blocks.map fun x => if b.id = x.id then b else x
    blockHistory := db.blockHistory.filter (fun h => !prunes p h) ++ ins
    nextHistoryId := db.nextHistoryId + ins.length }

theorem historyOf_commitRow (db : Database) (b : Block) (p : Option (String × Nat))
    (ins : List BlockHistory) (x : String) :
    (db.commitRow b p ins).historyOf x =
      (db.historyOf x).filter (fun h => !prunes p h) ++
        ins.filter (·.blockId = x) := by
  simp only [Database.historyOf, Database.commitRow, List.filter_append, List.filter_filter]
  congr 1
  exact List.filter_congr fun h _ => Bool.and_comm _ _

/-- The flush of one changed row still at its loaded version: the listener
decides. -/
theorem applyWrites_single {db : Database} {r : RowWrite} (hc : r.changed = true)
    (hv : db.versionOf r.row.id = some r.loaded.version) (p : Option (String × Nat))
    (ins : List BlockHistory) :
    db.applyWrites ⟨p, ins, [r]⟩ =
      if r.row.content.valueLengthOk then .ok (db.commitRow r.flushed p ins)
      else .error (.valueError (valueLengthMessage r.row)) := by
  by_cases hok : r.row.content.valueLengthOk = true
  · have hm : db.versionsMatch [r] = true := by simp [Database.versionsMatch, hv]
    simp only [Database.applyWrites, List.find?, hok, Bool.not_true, Writes.emitted, List.filter, hc,
      hm, if_true, Database.flush, Database.writtenBlocks, Database.commitRow]
    congr 3
    funext x
    by_cases h : r.row.id = x.id <;> simp [List.find?, h]
  · simp [Database.applyWrites, List.find?, hok]

/-- The flush keeps every row's id. -/
theorem writtenBlocks_ids (db : Database) (rs : List RowWrite) :
    (db.writtenBlocks rs).map (·.id) = db.blocks.map (·.id) := by
  rw [Database.writtenBlocks, List.map_map]
  refine List.map_congr_left fun x _ => ?_
  simp only [Function.comp]
  split
  · rename_i c hc
    simpa using List.find?_some hc
  · rfl

/-- The flush stores the emitted row in place of the stored row with its id. -/
theorem flushed_mem_writtenBlocks {db : Database} {rs : List RowWrite} {x : Block} {c : RowWrite}
    (hx : x ∈ db.blocks) (hc : rs.find? (·.row.id = x.id) = some c) : c.flushed ∈ db.writtenBlocks rs :=
  List.mem_map.mpr ⟨x, hx, by simp only [hc]⟩

/-- After a flush, every row it emitted is at a version past the one it was
loaded at. -/
theorem versionOf_applyWrites {db db' : Database} (hk : db.BlockKeys) {w : Writes}
    (h : db.applyWrites w = .ok db') {r : RowWrite} (hr : r ∈ w.emitted) :
    ∃ v, db'.versionOf r.row.id = some v ∧ r.loaded.version < v := by
  obtain ⟨-, hm, rfl⟩ := applyWrites_eq_ok.mp h
  simp only [Database.versionsMatch, List.all_eq_true, decide_eq_true_eq] at hm
  obtain ⟨x, hx, -⟩ := Option.map_eq_some'.mp (hm r hr)
  have hxr : x.id = r.row.id := by simpa using List.find?_some hx
  obtain ⟨c, hc⟩ := Option.isSome_iff_exists.mp
    (List.find?_isSome.mpr ⟨r, hr, by simp [hxr]⟩ : (w.emitted.find? (·.row.id = x.id)).isSome)
  have hcr : c.row.id = r.row.id := (by simpa using List.find?_some hc : c.row.id = x.id).trans hxr
  have hcv : c.loaded.version = r.loaded.version := by
    have h1 := hm c (List.mem_of_find?_eq_some hc)
    rw [hcr, hm r hr] at h1
    exact (Option.some.inj h1).symm
  have hk' : ((db.writtenBlocks w.emitted).map Block.id).Nodup := (writtenBlocks_ids db _).symm ▸ hk
  refine ⟨c.flushed.version, ?_, hcv ▸ c.lt_flushed_version⟩
  show ((db.writtenBlocks w.emitted).find? (·.id = r.row.id)).map (·.version) = _
  rw [← hcr, ← RowWrite.flushed_id,
    find?_key_of_mem Block.id hk' (flushed_mem_writtenBlocks (List.mem_of_find?_eq_some hx) hc)]
  rfl

/-- A write-back that neither prunes nor inserts only replaces the row. -/
theorem commitRow_none (db : Database) (b : Block) :
    db.commitRow b none [] =
      { db with blocks := db.blocks.map fun x => if b.id = x.id then b else x } := by
  simp [Database.commitRow, prunes]

/-- Under the primary key, a read of another organization's row misses. -/
theorem readBlock_of_other_organization {db : Database} (hk : db.BlockKeys) {b : Block}
    (hb : b ∈ db.blocks) {actor : User} (ho : b.organizationId ≠ actor.organizationId) :
    readBlock db b.id actor = .error (.notFound b.id) := by
  have : db.blocks.find? (fun x => x.id = b.id && x.organizationId = actor.organizationId) = none :=
    List.find?_eq_none.mpr fun x hx hp => by
      simp only [Bool.and_eq_true, decide_eq_true_eq] at hp
      exact ho (eq_of_mem_of_id hk hx hb hp.1 ▸ hp.2)
  simp [readBlock, this]

/-- A read under the primary key: a stored row of the actor's organization is
found by its id. -/
theorem readBlock_of_mem {db : Database} (hk : db.BlockKeys) {b : Block} (hb : b ∈ db.blocks)
    {actor : User} (ho : b.organizationId = actor.organizationId) :
    readBlock db b.id actor = .ok b := by
  apply readBlock_eq_ok.mpr
  suffices ∀ l : List Block, (l.map (·.id)).Nodup → b ∈ l →
      l.find? (fun x => x.id = b.id && x.organizationId = actor.organizationId) = some b from
    this _ hk hb
  intro l hl hbl
  induction l with
  | nil => cases hbl
  | cons y ys ih =>
      rw [List.map_cons, List.nodup_cons] at hl
      rcases List.mem_cons.mp hbl with rfl | hbl
      · simp [ho]
      · have hne : y.id ≠ b.id := fun h => hl.1 (h ▸ List.mem_map_of_mem _ hbl)
        simp [hne, ih hl.2 hbl]

/-! ## Sample rows

A user and a fresh block of one organization, for the witnesses. -/

def sampleUser : User := ⟨"user-1", "org-1"⟩

def sampleBlock : Block :=
  { id := "block-1", organizationId := "org-1", label := "human", description := none,
    value := "abc", limit := 10, metadata := none, isTemplate := false, templateName := none,
    projectId := none, createdAt := 0, currentHistoryEntryId := none, version := 1 }

def sampleDatabase : Database := ⟨[sampleBlock], [], [], [], [], [], 0⟩

end Letta
