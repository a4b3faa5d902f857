import Mathlib.Data.List.Sort
import Letta.Invariant

/-!
# The checkpoint engine refines a linear undo stack

What `checkpoint_block`, `undo_checkpoint_block` and `redo_checkpoint_block`
are for, stated once on its own terms: a block carries a list of snapshots,
an optional position in it, and its live content (`UndoStack`). A checkpoint
drops everything above the position and pushes the content; undo and redo
move the position by one and load the snapshot there; direct writes change
the content alone.

The code keeps that state spread over two tables: the block's
`block_history` rows, its `current_history_entry_id` and its five content
fields. `Database.observe` reads the stack off them (rows sorted by
`sequence_number`, the index of the pointed-to row, the content), and
`Call.op` says which abstract operation each call performs on one block:
calls on other blocks, and calls by actors that cannot load it, skip. The
`before_update` listener of the ORM rejects a row whose value is longer than
its limit, so a direct write is a checked one (`checkedWrite`), and a bulk
write takes effect only when every row it stages passes.

The proof is a simulation. `Tracks db b s` relates a block row to an
abstract stack: the rows in table order are the snapshots, the pointer names
the row at the position, the content is the live content. One lemma per kind
of call shows that a step keeps `Tracks` (`Tracks.step`), the history
invariant of `Letta.Invariant` carries the rest, and `Tracks.observe` reads
the abstraction off (`checkpoint_refines_undoStack`).

Every stored block of a reachable state stands for some stack
(`Tracks.of_historyInv`), so laws of the stack become laws of the code:
redo right after a successful undo returns to the row undone from
(`UndoStack.redo_undo`, `redo_after_undo`), and a checkpoint leaves nothing
to redo (`UndoStack.redo_checkpoint`, `checkpoint_clears_redo`).
-/

namespace Letta

/-! ## The abstract stack -/

/-- A linear undo stack over block contents: the snapshots, the position of
the current one, and the live content. -/
structure UndoStack where
  snapshots : List BlockContent
  position : Option Nat
  content : BlockContent
  position_lt : ∀ i, position = some i → i < snapshots.length

/-- What an observer sees of a stack, or of a block (`Database.observe`). -/
structure HistoryView where
  snapshots : List BlockContent
  position : Option Nat
  content : BlockContent
deriving Repr, DecidableEq

namespace UndoStack

def view (s : UndoStack) : HistoryView := ⟨s.snapshots, s.position, s.content⟩

/-- A block as it is created: no checkpoint yet. -/
def init (c : BlockContent) : UndoStack := ⟨[], none, c, fun _ h => nomatch h⟩

/-- The snapshots after a checkpoint: the redo tail dropped and the content pushed. -/
def pushed (s : UndoStack) : List BlockContent :=
  match s.position with
  | none => [s.content]
  | some i => s.snapshots.take (i + 1) ++ [s.content]

theorem length_pushed_pos (s : UndoStack) : 0 < s.pushed.length := by
  unfold pushed
  split <;> simp

def checkpoint (s : UndoStack) : UndoStack where
  snapshots := s.pushed
  position := some (s.pushed.length - 1)
  content := s.content
  position_lt _ h := by
    cases h
    have := s.length_pushed_pos
    omega

/-- Undo fails with no position or at position 0. -/
def undo (s : UndoStack) : Option UndoStack :=
  match hp : s.position with
  | some (i + 1) =>
      have hi : i < s.snapshots.length := Nat.lt_of_succ_lt (s.position_lt _ hp)
      some ⟨s.snapshots, some i, s.snapshots[i], fun _ h => by cases h; exact hi⟩
  | _ => none

/-- Redo fails with no position or at the last one. -/
def redo (s : UndoStack) : Option UndoStack :=
  match s.position with
  | some i =>
      if hi : i + 1 < s.snapshots.length then
        some ⟨s.snapshots, some (i + 1), s.snapshots[i + 1], fun _ h => by cases h; exact hi⟩
      else none
  | none => none

def write (s : UndoStack) (f : BlockContent → BlockContent) : UndoStack :=
  { s with content := f s.content }

/-- An operation on the stack; a failed undo or redo leaves it as it was. -/
inductive Op where
  | checkpoint
  | undo
  | redo
  | write (f : BlockContent → BlockContent)
  | skip

def step (s : UndoStack) : Op → UndoStack
  | .checkpoint => s.checkpoint
  | .undo => s.undo.getD s
  | .redo => s.redo.getD s
  | .write f => s.write f
  | .skip => s

def run (s : UndoStack) : List Op → UndoStack
  | [] => s
  | o :: os => (s.step o).run os

variable {s : UndoStack} {i : Nat}

theorem undo_none (hp : s.position = none) : s.undo = none := by
  unfold undo
  split <;> simp_all

theorem undo_zero (hp : s.position = some 0) : s.undo = none := by
  unfold undo
  split <;> simp_all

theorem undo_succ (hp : s.position = some (i + 1)) :
    ∃ s', s.undo = some s' ∧ s'.snapshots = s.snapshots ∧ s'.position = some i ∧
      s.snapshots[i]? = some s'.content := by
  unfold undo
  split
  · rename_i j hj
    obtain rfl : j = i := by simpa [hp] using hj.symm
    exact ⟨_, rfl, rfl, rfl, List.getElem?_eq_getElem _⟩
  · simp_all

theorem redo_none (hp : s.position = none) : s.redo = none := by
  simp [redo, hp]

theorem redo_last (hp : s.position = some i) (hl : i + 1 = s.snapshots.length) : s.redo = none := by
  simp [redo, hp, hl]

theorem redo_lt (hp : s.position = some i) (hl : i + 1 < s.snapshots.length) :
    ∃ s', s.redo = some s' ∧ s'.snapshots = s.snapshots ∧ s'.position = some (i + 1) ∧
      s.snapshots[i + 1]? = some s'.content := by
  simp only [redo, hp, dif_pos hl]
  exact ⟨_, rfl, rfl, rfl, List.getElem?_eq_getElem _⟩

/-- Redo right after a successful undo comes back to the undone position and
loads the snapshot there. -/
theorem redo_undo {s₁ : UndoStack} (hu : s.undo = some s₁) :
    ∃ s₂, s₁.redo = some s₂ ∧ s₂.snapshots = s.snapshots ∧ s₂.position = s.position ∧
      ∃ k, s.position = some k ∧ s.snapshots[k]? = some s₂.content := by
  rcases hp : s.position with _ | _ | i
  · simp [undo_none hp] at hu
  · simp [undo_zero hp] at hu
  · obtain ⟨s₁', hu', hsn, hp₁, -⟩ := undo_succ hp
    obtain rfl : s₁' = s₁ := Option.some.inj (hu'.symm.trans hu)
    obtain ⟨s₂, hr, hsn₂, hp₂, hc⟩ := redo_lt hp₁ (hsn ▸ s.position_lt _ hp)
    exact ⟨s₂, hr, hsn₂.trans hsn, hp₂, _, rfl, hsn ▸ hc⟩

theorem getLast?_pushed (s : UndoStack) : s.pushed.getLast? = some s.content := by
  unfold pushed
  split <;> simp

/-- A checkpoint is the newest snapshot: nothing is left to redo. -/
theorem redo_checkpoint (s : UndoStack) : s.checkpoint.redo = none :=
  redo_last rfl (Nat.sub_add_cancel s.length_pushed_pos)

end UndoStack

/-! ## The concrete view -/

/-- The block's rows sorted by `sequence_number`. -/
def Database.sortedHistory (db : Database) (blockId : String) : List BlockHistory :=
  (db.historyOf blockId).insertionSort (·.sequenceNumber ≤ ·.sequenceNumber)

/-- What the refinement observes of the block `blockId`: its rows sorted by
sequence, as snapshots; the index among them of the row
`current_history_entry_id` names; its content. -/
def Database.observe (db : Database) (blockId : String) : Option HistoryView :=
  (db.blocks.find? (·.id = blockId)).map fun b =>
    let rows := db.sortedHistory blockId
    ⟨rows.map (·.content), b.currentHistoryEntryId.bind fun i => rows.findIdx? (·.id = i), b.content⟩

/-- A direct write as the flush lets it through: the write, or nothing when
the length listener rejects the row it produces. -/
def checkedWrite (f : BlockContent → BlockContent) (c : BlockContent) : BlockContent :=
  if (f c).valueLengthOk then f c else c

/-- The abstract operation a call performs on the block `blockId` of
organization `org`, run at `db`. A call on another block, or by an actor who
cannot load it, skips: the point read filters on the organization, the merge
of a preloaded copy does not. A direct write goes through where the length
listener passes its row; the bulk write rolls back as a whole, so it writes
the block only where every row it assigns at `db` passes. -/
def Call.op (blockId org : String) (db : Database) : Call → UndoStack.Op
  | .checkpointBlock x actor _ p =>
      if x = blockId ∧ (p = true ∨ actor.organizationId = org) then .checkpoint else .skip
  | .undoCheckpointBlock x actor p =>
      if x = blockId ∧ (p = true ∨ actor.organizationId = org) then .undo else .skip
  | .redoCheckpointBlock x actor p =>
      if x = blockId ∧ (p = true ∨ actor.organizationId = org) then .redo else .skip
  | .updateBlock x u actor | .updateBlockAsync x u actor =>
      if x = blockId ∧ actor.organizationId = org then .write (checkedWrite u.applyContent) else .skip
  | .createOrUpdateBlock block actor _ | .createOrUpdateBlockAsync block actor _ =>
      if block.id = blockId ∧ actor.organizationId = org then
        .write (checkedWrite block.toUpdate.applyContent)
      else .skip
  | .bulkUpdateBlockValuesAsync updates actor =>
      match updates.lookup blockId with
      | some v => if actor.organizationId = org ∧ (bulkWrites db updates actor).valueLengthsOk then
          .write fun c => { c with value := truncateToLimit v c.limit } else .skip
      | none => .skip

/-- The operations of a serial run, each at the state its call runs at. -/
def Call.ops (blockId org : String) : Database → List Call → List UndoStack.Op
  | _, [] => []
  | db, c :: cs => c.op blockId org db :: Call.ops blockId org (c.run db) cs

theorem UndoStack.write_checked_of_ok {s : UndoStack} {f : BlockContent → BlockContent}
    (h : (f s.content).valueLengthOk = true) : s.write (checkedWrite f) = s.write f := by
  simp [UndoStack.write, checkedWrite, h]

theorem UndoStack.write_checked_of_rejected {s : UndoStack} {f : BlockContent → BlockContent}
    (h : (f s.content).valueLengthOk = false) : s.write (checkedWrite f) = s := by
  simp only [UndoStack.write, checkedWrite, h, Bool.false_eq_true, if_false]

/-! ## List facts the view needs -/

/-- On a list whose keys are distinct, the first index with `l[k]`'s key is `k`. -/
theorem findIdx?_key_getElem {α β : Type} [DecidableEq β] (key : α → β) :
    ∀ {l : List α}, (l.map key).Nodup → ∀ {k : Nat} (hk : k < l.length),
      l.findIdx? (key · = key l[k]) = some k
  | [], _, _, hk => absurd hk (Nat.not_lt_zero _)
  | y :: ys, hl, k, hk => by
      rw [List.map_cons, List.nodup_cons] at hl
      cases k with
      | zero => simp
      | succ j =>
          have hj : j < ys.length := Nat.lt_of_succ_lt_succ hk
          have hne : key y ≠ key ys[j] := fun h => hl.1 (h ▸ List.mem_map_of_mem key (List.getElem_mem hj))
          simp only [List.findIdx?_cons, List.getElem_cons_succ, hne, decide_False, Bool.false_eq_true, ite_false,
            List.findIdx?_succ, findIdx?_key_getElem key hl.2 hj, Option.map_some']

namespace Numbered

variable {rows : List BlockHistory}

/-- Rows numbered in table order are sorted by sequence. -/
theorem insertionSort (h : Numbered rows) :
    rows.insertionSort (·.sequenceNumber ≤ ·.sequenceNumber) = rows := by
  apply List.Sorted.insertionSort_eq
  have := (h.eq ▸ List.pairwise_lt_range' 1 rows.length : (rows.map (·.sequenceNumber)).Pairwise (· < ·))
  exact (List.pairwise_map.mp this).imp Nat.le_of_lt

/-- The row numbered `j + 1` is `rows[j]`. -/
theorem eq_getElem {e : BlockHistory} (h : Numbered rows) (he : e ∈ rows) {j : Nat}
    (hj : j < rows.length) (hs : e.sequenceNumber = j + 1) : e = rows[j] :=
  List.mem_singleton.mp (h.filter_seq hj ▸ List.mem_filter.mpr ⟨he, by simp [hs]⟩)

end Numbered

/-! ## The simulation relation -/

/-- The block row `b` stands for the stack `s`: its rows in table order are
the snapshots, its pointer names the row at the position, and its content
is the live content. -/
structure Tracks (db : Database) (b : Block) (s : UndoStack) : Prop where
  mem : b ∈ db.blocks
  content : b.content = s.content
  pointer : b.currentHistoryEntryId = s.position.bind fun k => ((db.historyOf b.id)[k]?).map (·.id)
  snapshots : (db.historyOf b.id).map (·.content) = s.snapshots

section Tracks

variable {db : Database} {b : Block} {s : UndoStack}

theorem Tracks.length (ht : Tracks db b s) : (db.historyOf b.id).length = s.snapshots.length := by
  rw [← ht.snapshots, List.length_map]

/-- The row the pointer names when the position is `k`. -/
theorem Tracks.pointer_some (ht : Tracks db b s) {k : Nat} (hp : s.position = some k) :
    ∃ hk : k < (db.historyOf b.id).length, b.currentHistoryEntryId = some (db.historyOf b.id)[k].id := by
  have hk : k < (db.historyOf b.id).length := ht.length ▸ s.position_lt k hp
  exact ⟨hk, by rw [ht.pointer, hp, Option.some_bind, List.getElem?_eq_getElem hk, Option.map_some']⟩

theorem Tracks.pointer_none (ht : Tracks db b s) (hp : s.position = none) :
    b.currentHistoryEntryId = none := by
  rw [ht.pointer, hp, Option.none_bind]

/-- `current_seq` is one above the position, and 0 with no position. -/
theorem Tracks.currentSequence (hi : HistoryInv db) (ht : Tracks db b s) :
    db.currentSequence b = (s.position.map (· + 1)).getD 0 := by
  rcases hp : s.position with _ | k
  · exact HistoryInv.currentSequence_none (ht.pointer_none hp)
  · obtain ⟨hk, hc⟩ := ht.pointer_some hp
    rw [HistoryInv.currentSequence_some hc
      (hi.getHistory_of_mem (List.mem_filter.mp (List.getElem_mem hk)).1),
      (hi.numbered b ht.mem).seq_getElem hk]
    rfl

/-- The refinement's reading of a tracked block is the stack's view. -/
theorem Tracks.observe (hi : HistoryInv db) (ht : Tracks db b s) : db.observe b.id = some s.view := by
  have hn := hi.numbered b ht.mem
  have hids : ((db.historyOf b.id).map (·.id)).Nodup :=
    hi.history_nodup.sublist ((List.filter_sublist _).map _)
  simp only [Database.observe, find?_key_of_mem Block.id hi.keys ht.mem, Option.map_some',
    Database.sortedHistory, hn.insertionSort, ht.snapshots, ← ht.content, UndoStack.view]
  congr
  rcases hp : s.position with _ | k
  · rw [ht.pointer_none hp, Option.none_bind]
  · obtain ⟨hk, hc⟩ := ht.pointer_some hp
    rw [hc, Option.some_bind]
    exact findIdx?_key_getElem BlockHistory.id hids hk

/-- A commit of another block's row that leaves this block's rows alone. -/
theorem Tracks.commitRow_other (ht : Tracks db b s) {b' : Block} {p : Option (String × Nat)}
    {ins : List BlockHistory} (hid : b'.id ≠ b.id)
    (hh : (db.commitRow b' p ins).historyOf b.id = db.historyOf b.id) :
    Tracks (db.commitRow b' p ins) b s where
  mem := List.mem_map.mpr ⟨b, ht.mem, if_neg hid⟩
  content := ht.content
  pointer := hh ▸ ht.pointer
  snapshots := hh ▸ ht.snapshots

theorem historyOf_commitRow_none (db : Database) (b' : Block) (x : String) :
    (db.commitRow b' none []).historyOf x = db.historyOf x := by
  rw [commitRow_none]
  rfl

/-- A commit of this block's row that keeps its rows: the written row, with
the position and content it carries, stands for `s'`. -/
theorem Tracks.commitRow_self (ht : Tracks db b s) {b' : Block} {s' : UndoStack} (hid : b'.id = b.id)
    (hc : b'.content = s'.content)
    (hp : b'.currentHistoryEntryId = s'.position.bind fun k => ((db.historyOf b.id)[k]?).map (·.id))
    (hs : s'.snapshots = s.snapshots) :
    Tracks (db.commitRow b' none []) b' s' where
  mem := List.mem_map.mpr ⟨b, ht.mem, if_pos hid⟩
  content := hc
  pointer := by rw [historyOf_commitRow_none, hid, hp]
  snapshots := by rw [historyOf_commitRow_none, hid, ht.snapshots, hs]

/-- A read that is not the tracked block's own returns another row. -/
theorem readBlock_other (hk : db.BlockKeys) (hb : b ∈ db.blocks) {x : String} {actor : User} {r : Block}
    (hr : readBlock db x actor = .ok r) (hx : ¬(x = b.id ∧ actor.organizationId = b.organizationId)) :
    r.id ≠ b.id := by
  obtain ⟨hmem, rfl, ho⟩ := mem_of_readBlock hr
  intro h
  exact hx ⟨h, (eq_of_mem_of_id hk hmem hb h ▸ ho).symm⟩

/-- The load of checkpoint, undo and redo finds the tracked block exactly
when the call names it and may load it. -/
theorem loadBlock_self (hk : db.BlockKeys) (hb : b ∈ db.blocks) {actor : User} {p : Bool}
    (ho : p = true ∨ actor.organizationId = b.organizationId) :
    loadBlock db b.id actor (db.preload b.id p) = .ok b :=
  (loadBlock_preload_eq_ok hk).mpr ⟨hb, rfl, ho.imp_right Eq.symm⟩

theorem loadBlock_other (hk : db.BlockKeys) (hb : b ∈ db.blocks) {x : String} {actor : User} {p : Bool}
    {r : Block} (hl : loadBlock db x actor (db.preload x p) = .ok r)
    (hx : ¬(x = b.id ∧ (p = true ∨ actor.organizationId = b.organizationId))) : r.id ≠ b.id := by
  obtain ⟨hmem, rfl, ho⟩ := (loadBlock_preload_eq_ok hk).mp hl
  intro h
  exact hx ⟨h, (eq_of_mem_of_id hk hmem hb h ▸ ho).imp_right Eq.symm⟩

end Tracks

/-! ## Each call keeps the simulation -/

namespace Tracks

variable {db : Database} {b : Block} {s : UndoStack}

/-- The checkpoint of the tracked block pushes its content. -/
theorem checkpoint (hi : HistoryInv db) (ht : Tracks db b s) (actor : User) (agentId : Option String) :
    Tracks (checkpointed db b actor agentId)
      (RowWrite.update b { b with currentHistoryEntryId := some db.nextHistoryId }).flushed s.checkpoint := by
  have hrows := HistoryInv.historyOf_checkpointed_self db b actor agentId hi ht.mem
  have hsnap : ((checkpointed db b actor agentId).historyOf b.id).map (·.content) = s.pushed := by
    rw [hrows, ht.currentSequence hi, List.map_append, List.map_take, ht.snapshots]
    unfold UndoStack.pushed
    cases s.position <;> simp [BlockHistory.content, checkpointEntry, ← ht.content, Block.content]
  have hlen : ((checkpointed db b actor agentId).historyOf b.id).length = s.pushed.length := by
    rw [← hsnap, List.length_map]
  refine ⟨List.mem_map.mpr ⟨b, ht.mem, if_pos rfl⟩, ht.content, ?_, hsnap⟩
  show some db.nextHistoryId = _
  rw [UndoStack.checkpoint, Option.some_bind, ← hlen, RowWrite.flushed_id, RowWrite.update_row, hrows,
    List.length_append, List.length_singleton, Nat.add_sub_cancel, List.getElem?_concat_length]
  rfl

/-- The move to `rows[j]`, matched by a stack at position `j`. -/
theorem restore (ht : Tracks db b s) {j : Nat} (hj : j < (db.historyOf b.id).length) {s' : UndoStack}
    (hsn : s'.snapshots = s.snapshots) (hsp : s'.position = some j)
    (hsc : s.snapshots[j]? = some s'.content) :
    Tracks (db.commitRow (db.stamp (b.restore (db.historyOf b.id)[j])).flushed none [])
      (db.stamp (b.restore (db.historyOf b.id)[j])).flushed s' :=
  ht.commitRow_self rfl
    (Option.some.inj (by rw [← hsc, ← ht.snapshots, List.getElem?_map, List.getElem?_eq_getElem hj]; rfl))
    (by rw [RowWrite.flushed_currentHistoryEntryId, stamp_row, Block.restore_currentHistoryEntryId, hsp,
      Option.some_bind, List.getElem?_eq_getElem hj]; rfl)
    hsn

/-- Undo of the tracked block is the stack's undo; a failed one commits
nothing, and a successful one loads a snapshot, which the length listener
passes. -/
theorem undo (hi : HistoryInv db) (ht : Tracks db b s) :
    ∃ b', Tracks (match undoWrites db b.id b with
        | .ok (_, r) => if r.row.content.valueLengthOk then db.commitRow r.flushed none [] else db
        | .error _ => db) b' (s.undo.getD s) ∧ (b' = b ∨ b'.content.valueLengthOk = true) ∧
      b'.id = b.id ∧ b'.organizationId = b.organizationId := by
  rcases hp : s.position with _ | k
  · rw [undoWrites, HistoryInv.moveToNeighbour_none (ht.pointer_none hp), UndoStack.undo_none hp]
    exact ⟨b, ht, .inl rfl, rfl, rfl⟩
  · obtain ⟨hk, hc⟩ := ht.pointer_some hp
    have hn := hi.numbered b ht.mem
    have hr := List.getElem_mem hk
    have hg := hi.getHistory_of_mem (List.mem_filter.mp hr).1
    cases k with
    | zero =>
        rw [hi.undoWrites_first ht.mem hc hg hr (hn.seq_getElem hk) b.id, UndoStack.undo_zero hp]
        exact ⟨b, ht, .inl rfl, rfl, rfl⟩
    | succ j =>
        have hj : j < (db.historyOf b.id).length := Nat.lt_of_succ_lt hk
        obtain ⟨e, he, hs, hw⟩ :=
          hi.undoWrites_later ht.mem hc hg hr (by rw [hn.seq_getElem hk]; omega) b.id
        obtain rfl := hn.eq_getElem he hj (by rw [hn.seq_getElem hk] at hs; omega)
        obtain ⟨s', hu, hsn, hsp, hsc⟩ := UndoStack.undo_succ hp
        have hok : (db.stamp (b.restore (db.historyOf b.id)[j])).row.content.valueLengthOk = true :=
          hi.snapshotsOk _ (List.mem_filter.mp he).1
        rw [hw, hu]
        dsimp only
        rw [if_pos hok]
        exact ⟨_, ht.restore hj hsn hsp hsc, .inr hok, rfl, rfl⟩

/-- Redo of the tracked block is the stack's redo, in the same way. -/
theorem redo (hi : HistoryInv db) (ht : Tracks db b s) :
    ∃ b', Tracks (match redoWrites db b.id b with
        | .ok (_, r) => if r.row.content.valueLengthOk then db.commitRow r.flushed none [] else db
        | .error _ => db) b' (s.redo.getD s) ∧ (b' = b ∨ b'.content.valueLengthOk = true) ∧
      b'.id = b.id ∧ b'.organizationId = b.organizationId := by
  rcases hp : s.position with _ | k
  · rw [redoWrites, HistoryInv.moveToNeighbour_none (ht.pointer_none hp), UndoStack.redo_none hp]
    exact ⟨b, ht, .inl rfl, rfl, rfl⟩
  · obtain ⟨hk, hc⟩ := ht.pointer_some hp
    have hn := hi.numbered b ht.mem
    have hr := List.getElem_mem hk
    have hg := hi.getHistory_of_mem (List.mem_filter.mp hr).1
    by_cases hl : k + 1 = (db.historyOf b.id).length
    · rw [hi.redoWrites_last ht.mem hc hg hr (hn.seq_getElem hk ▸ hl) b.id,
        UndoStack.redo_last hp (ht.length ▸ hl)]
      exact ⟨b, ht, .inl rfl, rfl, rfl⟩
    · have hj : k + 1 < (db.historyOf b.id).length := by omega
      obtain ⟨e, he, hs, hw⟩ :=
        hi.redoWrites_earlier ht.mem hc hg hr (by rw [hn.seq_getElem hk]; exact hl) b.id
      obtain rfl := hn.eq_getElem he hj (by rw [hs, hn.seq_getElem hk])
      obtain ⟨s', hu, hsn, hsp, hsc⟩ := UndoStack.redo_lt hp (ht.length ▸ hj)
      have hok : (db.stamp (b.restore (db.historyOf b.id)[k + 1])).row.content.valueLengthOk = true :=
        hi.snapshotsOk _ (List.mem_filter.mp he).1
      rw [hw, hu]
      dsimp only
      rw [if_pos hok]
      exact ⟨_, ht.restore hj hsn hsp hsc, .inr hok, rfl, rfl⟩

/-- Undo of the tracked block as a call by an actor who may load it: the
stack's undo. -/
theorem run_undo (hi : HistoryInv db) (ht : Tracks db b s) {actor : User} {p : Bool}
    (ho : p = true ∨ actor.organizationId = b.organizationId) :
    ∃ b', Tracks ((Call.undoCheckpointBlock b.id actor p).run db) b' (s.undo.getD s) ∧
      (b' = b ∨ b'.content.valueLengthOk = true) ∧ b'.id = b.id ∧ b'.organizationId = b.organizationId := by
  rw [run_undoCheckpointBlock hi.keys, loadBlock_self hi.keys ht.mem ho]
  exact ht.undo hi

/-- Redo of the tracked block as a call by an actor who may load it: the
stack's redo. -/
theorem run_redo (hi : HistoryInv db) (ht : Tracks db b s) {actor : User} {p : Bool}
    (ho : p = true ∨ actor.organizationId = b.organizationId) :
    ∃ b', Tracks ((Call.redoCheckpointBlock b.id actor p).run db) b' (s.redo.getD s) ∧
      (b' = b ∨ b'.content.valueLengthOk = true) ∧ b'.id = b.id ∧ b'.organizationId = b.organizationId := by
  rw [run_redoCheckpointBlock hi.keys, loadBlock_self hi.keys ht.mem ho]
  exact ht.redo hi

/-- A direct write of the tracked block that the listener lets through
changes the content alone. -/
theorem update (ht : Tracks db b s) (u : BlockUpdate) :
    Tracks (db.commitRow (RowWrite.update b (u.apply b)).flushed none []) (RowWrite.update b (u.apply b)).flushed
      (s.write u.applyContent) :=
  ht.commitRow_self rfl
    (by rw [RowWrite.flushed_content, RowWrite.update_row, BlockUpdate.apply_content, ht.content]; rfl)
    ht.pointer rfl

theorem commitRow_none_other (ht : Tracks db b s) {b' : Block} (hid : b'.id ≠ b.id) :
    Tracks (db.commitRow b' none []) b s :=
  ht.commitRow_other hid (historyOf_commitRow_none _ _ _)

/-- The bulk write of the tracked block truncates against its stored limit,
when the whole write passes the length listener. -/
theorem bulk (ht : Tracks db b s) (hv : b.content.valueLengthOk = true) (updates : List (String × String))
    (actor : User) :
    ∃ b', Tracks (if (bulkWrites db updates actor).valueLengthsOk then
        { db with blocks := db.blocks.map (bulkCommittedRow updates actor) } else db) b'
        (s.step ((Call.bulkUpdateBlockValuesAsync updates actor).op b.id b.organizationId db)) ∧
      b'.content.valueLengthOk = true ∧ b'.id = b.id ∧ b'.organizationId = b.organizationId := by
  by_cases hok : (bulkWrites db updates actor).valueLengthsOk = true
  · rw [if_pos hok]
    have hm := List.mem_map_of_mem (bulkCommittedRow updates actor) ht.mem
    obtain ⟨hid, hor, hptr, -⟩ := bulkCommittedRow_keeps updates actor b
    by_cases hsel : ∃ v, updates.lookup b.id = some v ∧ b.organizationId = actor.organizationId
    · obtain ⟨v, hl, ho⟩ := hsel
      have hop : (Call.bulkUpdateBlockValuesAsync updates actor).op b.id b.organizationId db =
          .write fun c => { c with value := truncateToLimit v c.limit } := by
        simp [Call.op, hl, ho, hok]
      have hc := bulkCommittedRow_content hl ho
      rw [hop]
      refine ⟨_, ⟨hm, ?_, by rw [hid]; exact hptr.trans ht.pointer, by rw [hid]; exact ht.snapshots⟩, ?_, hid, hor⟩
      · rw [hc]
        show _ = { s.content with value := truncateToLimit v s.content.limit }
        rw [← ht.content]
        rfl
      · rw [hc]
        exact valueLengthOk_of_bulkWrites hok ht.mem hl ho
    · have hun : updates.lookup b.id = none ∨ b.organizationId ≠ actor.organizationId := by
        rcases hl : updates.lookup b.id with _ | v
        · exact .inl rfl
        · exact .inr fun ho => hsel ⟨v, hl, ho⟩
      have hop : (Call.bulkUpdateBlockValuesAsync updates actor).op b.id b.organizationId db = .skip := by
        simp only [Call.op]
        rcases hun with hn | hn
        · rw [hn]
        · split <;> simp [Ne.symm hn]
      rw [bulkCommittedRow_unselected hun] at hm
      rw [hop]
      exact ⟨b, ⟨hm, ht.content, ht.pointer, ht.snapshots⟩, hv, rfl, rfl⟩
  · rw [if_neg hok]
    have hop : (Call.bulkUpdateBlockValuesAsync updates actor).op b.id b.organizationId db = .skip := by
      simp only [Call.op]
      split <;> simp [hok]
    rw [hop]
    exact ⟨b, ht, hv, rfl, rfl⟩

/-- A direct write of any block by any actor: the tracked block's own write,
another row's, or (on a miss) whatever the call commits instead. -/
theorem write (hi : HistoryInv db) (ht : Tracks db b s) (hv : b.content.valueLengthOk = true) (x : String)
    (u : BlockUpdate) (actor : User) {d : Database} (hd : Tracks d b s) :
    ∃ b', Tracks (match readBlock db x actor with
        | .ok r => if (u.apply r).content.valueLengthOk then
            db.commitRow (RowWrite.update r (u.apply r)).flushed none [] else db
        | .error _ => d) b'
      (s.step (if x = b.id ∧ actor.organizationId = b.organizationId then .write (checkedWrite u.applyContent)
        else .skip)) ∧ b'.content.valueLengthOk = true ∧ b'.id = b.id ∧ b'.organizationId = b.organizationId := by
  by_cases hx : x = b.id ∧ actor.organizationId = b.organizationId
  · obtain ⟨rfl, ho⟩ := hx
    simp only [readBlock_of_mem hi.keys ht.mem ho.symm, ho, and_self, if_true, UndoStack.step]
    by_cases hok : (u.apply b).content.valueLengthOk = true
    · have hs : (u.applyContent s.content).valueLengthOk = true := by rwa [← ht.content]
      rw [if_pos hok, UndoStack.write_checked_of_ok hs]
      exact ⟨_, ht.update u, hok, rfl, rfl⟩
    · have hs : (u.applyContent s.content).valueLengthOk = false := by
        rw [← ht.content]
        simpa using hok
      rw [if_neg hok, UndoStack.write_checked_of_rejected hs]
      exact ⟨b, ht, hv, rfl, rfl⟩
  · simp only [if_neg hx, UndoStack.step]
    split
    · rename_i r hr
      have hne := readBlock_other hi.keys ht.mem hr hx
      split
      · exact ⟨b, ht.commitRow_none_other hne, hv, rfl, rfl⟩
      · exact ⟨b, ht, hv, rfl, rfl⟩
    · exact ⟨b, hd, hv, rfl, rfl⟩

/-- The insert branch of `create_or_update_block` adds another block. -/
theorem insertBranch (ht : Tracks db b s) (block : PydanticBlock) (actor : User) (now : Nat) :
    Tracks (if !(block.toModel actor now).content.valueLengthOk || db.blocks.any (·.id = block.id) then db
      else { db with blocks := db.blocks ++ [block.toModel actor now] }) b s := by
  split
  · exact ht
  · exact ⟨List.mem_append_left _ ht.mem, ht.content, ht.pointer, ht.snapshots⟩

/-- An undo or redo of another block, or one that fails, leaves the tracked
block as it was. -/
theorem move_other (hi : HistoryInv db) (ht : Tracks db b s) {x : String} {actor : User} {p : Bool}
    (hx : ¬(x = b.id ∧ (p = true ∨ actor.organizationId = b.organizationId)))
    (move : Block → Except BlockError (Writes × RowWrite))
    (hmove : ∀ r w r', move r = .ok (w, r') → r'.row.id = r.id) :
    Tracks (match loadBlock db x actor (db.preload x p) with
      | .ok r => match move r with
        | .ok (_, r') => if r'.row.content.valueLengthOk then db.commitRow r'.flushed none [] else db
        | .error _ => db
      | .error _ => db) b s := by
  split
  · next r hl =>
    split
    · next r' hw =>
      split
      · exact ht.commitRow_none_other (by
          rw [RowWrite.flushed_id, hmove r _ _ hw]
          exact loadBlock_other hi.keys ht.mem hl hx)
      · exact ht
    · exact ht
  · exact ht

/-- One serial call keeps the simulation, with the call's abstract operation
at the state it runs at, and keeps the block's row passing the listener. -/
theorem step (hi : HistoryInv db) (ht : Tracks db b s) (hv : b.content.valueLengthOk = true) (c : Call) :
    ∃ b', Tracks (c.run db) b' (s.step (c.op b.id b.organizationId db)) ∧
      b'.content.valueLengthOk = true ∧ b'.id = b.id ∧ b'.organizationId = b.organizationId := by
  cases c with
  | checkpointBlock x actor agentId p =>
      rw [run_checkpointBlock hi.keys]
      by_cases hx : x = b.id ∧ (p = true ∨ actor.organizationId = b.organizationId)
      · obtain ⟨rfl, ho⟩ := hx
        simp only [loadBlock_self hi.keys ht.mem ho, hv, if_true, Call.op, ho, and_self, UndoStack.step]
        exact ⟨_, ht.checkpoint hi actor agentId, hv, rfl, rfl⟩
      · simp only [Call.op, if_neg hx, UndoStack.step]
        split
        · next r hl =>
          have hne := loadBlock_other hi.keys ht.mem hl hx
          split
          · exact ⟨b, ht.commitRow_other hne
              (HistoryInv.historyOf_checkpointed_other db r actor agentId (Ne.symm hne)), hv, rfl, rfl⟩
          · exact ⟨b, ht, hv, rfl, rfl⟩
        · exact ⟨b, ht, hv, rfl, rfl⟩
  | undoCheckpointBlock x actor p =>
      by_cases hx : x = b.id ∧ (p = true ∨ actor.organizationId = b.organizationId)
      · obtain ⟨rfl, ho⟩ := hx
        simp only [Call.op, ho, and_self, if_true, UndoStack.step]
        obtain ⟨b', ht', hb', hid, hor⟩ := ht.run_undo hi ho
        exact ⟨b', ht', hb'.elim (· ▸ hv) id, hid, hor⟩
      · rw [run_undoCheckpointBlock hi.keys]
        simp only [Call.op, if_neg hx, UndoStack.step]
        exact ⟨b, ht.move_other hi hx _ fun _ _ _ hw => by
          obtain ⟨-, e, -, rfl⟩ := moveToNeighbour_writes hw
          rfl, hv, rfl, rfl⟩
  | redoCheckpointBlock x actor p =>
      by_cases hx : x = b.id ∧ (p = true ∨ actor.organizationId = b.organizationId)
      · obtain ⟨rfl, ho⟩ := hx
        simp only [Call.op, ho, and_self, if_true, UndoStack.step]
        obtain ⟨b', ht', hb', hid, hor⟩ := ht.run_redo hi ho
        exact ⟨b', ht', hb'.elim (· ▸ hv) id, hid, hor⟩
      · rw [run_redoCheckpointBlock hi.keys]
        simp only [Call.op, if_neg hx, UndoStack.step]
        exact ⟨b, ht.move_other hi hx _ fun _ _ _ hw => by
          obtain ⟨-, e, -, rfl⟩ := moveToNeighbour_writes hw
          rfl, hv, rfl, rfl⟩
  | updateBlock x u actor =>
      rw [run_updateBlock hi.keys]
      exact ht.write hi hv x u actor ht
  | updateBlockAsync x u actor =>
      rw [run_updateBlockAsync hi.keys]
      exact ht.write hi hv x u actor ht
  | createOrUpdateBlock block actor now =>
      rw [run_createOrUpdateBlock hi.keys]
      exact ht.write hi hv block.id block.toUpdate actor (ht.insertBranch block actor now)
  | createOrUpdateBlockAsync block actor now =>
      rw [run_createOrUpdateBlockAsync hi.keys]
      exact ht.write hi hv block.id block.toUpdate actor (ht.insertBranch block actor now)
  | bulkUpdateBlockValuesAsync updates actor =>
      rw [run_bulkUpdateBlockValuesAsync hi.keys]
      exact ht.bulk hv updates actor

/-- Undo fails on the tracked block exactly when the stack's undo does. -/
theorem undo_fails_iff (hi : HistoryInv db) (ht : Tracks db b s) {actor : User}
    (ho : actor.organizationId = b.organizationId) :
    (∃ e, undoCheckpointBlock db b.id actor none = .error e) ↔ s.undo = none := by
  rw [hi.undo_fails_iff ht.mem ho, ht.currentSequence hi]
  rcases hp : s.position with _ | k
  · simp [ht.pointer_none hp, UndoStack.undo_none hp]
  · obtain ⟨_, hc⟩ := ht.pointer_some hp
    cases k with
    | zero => simp [hc, UndoStack.undo_zero hp]
    | succ j =>
        obtain ⟨s', hu, -⟩ := UndoStack.undo_succ hp
        simp [hc, hu]

/-- Redo fails on the tracked block exactly when the stack's redo does. -/
theorem redo_fails_iff (hi : HistoryInv db) (ht : Tracks db b s) {actor : User}
    (ho : actor.organizationId = b.organizationId) :
    (∃ e, redoCheckpointBlock db b.id actor none = .error e) ↔ s.redo = none := by
  rw [hi.redo_fails_iff ht.mem ho, ht.currentSequence hi, ht.length]
  rcases hp : s.position with _ | k
  · simp [ht.pointer_none hp, UndoStack.redo_none hp]
  · obtain ⟨hk, hc⟩ := ht.pointer_some hp
    by_cases hl : k + 1 = s.snapshots.length
    · simp [hc, hl, UndoStack.redo_last hp hl]
    · obtain ⟨s', hu, -⟩ := UndoStack.redo_lt hp (by have := ht.length; omega)
      simp [hc, hl, hu]

end Tracks

/-- A serial run keeps the simulation, with the run's abstract operations. -/
theorem Tracks.runCalls {db : Database} {b : Block} {s : UndoStack} (hi : HistoryInv db)
    (ht : Tracks db b s) (hv : b.content.valueLengthOk = true) : ∀ calls : List Call,
    ∃ b', Tracks (Letta.runCalls db calls) b' (s.run (Call.ops b.id b.organizationId db calls)) ∧
      b'.id = b.id ∧ b'.organizationId = b.organizationId
  | [] => ⟨b, ht, rfl, rfl⟩
  | c :: cs => by
      obtain ⟨b', ht', hv', hid, ho⟩ := ht.step hi hv c
      obtain ⟨b'', ht'', hid', ho'⟩ := ht'.runCalls (hi.run c) hv' cs
      rw [hid, ho] at ht''
      exact ⟨b'', ht'', hid'.trans hid, ho'.trans ho⟩

/-- **Refinement.** Take a state where block `b` has no checkpoint yet and
passes the length listener, as an inserted block does, and any serial run of
the manager's calls. The block, read back as its rows sorted by sequence,
the index of the row its pointer names, and its content, is the view of the
abstract stack the run's operations on `b` build from nothing; and undo
(redo) of `b` fails exactly where the stack's does. -/
theorem checkpoint_refines_undoStack (db₀ : Database) (h₀ : HistoryInv db₀) (b : Block)
    (hb : b ∈ db₀.blocks) (hc : b.currentHistoryEntryId = none) (hv : b.content.valueLengthOk = true)
    (calls : List Call) :
    let s := (UndoStack.init b.content).run (Call.ops b.id b.organizationId db₀ calls)
    let db := runCalls db₀ calls
    db.observe b.id = some s.view ∧
      ∀ actor : User, actor.organizationId = b.organizationId →
        ((∃ e, undoCheckpointBlock db b.id actor none = .error e) ↔ s.undo = none) ∧
        ((∃ e, redoCheckpointBlock db b.id actor none = .error e) ↔ s.redo = none) := by
  intro s db
  have hh : db₀.historyOf b.id = [] := by simpa [CurrentOk, hc] using h₀.current b hb
  have h0 : Tracks db₀ b (UndoStack.init b.content) := ⟨hb, rfl, by rw [hc]; rfl, by rw [hh]; rfl⟩
  obtain ⟨b', ht, hid, ho⟩ := h0.runCalls h₀ hv calls
  have hi := historyInv_runCalls h₀ calls
  rw [← hid]
  exact ⟨ht.observe hi, fun actor ha =>
    ⟨ht.undo_fails_iff hi (ha.trans ho.symm), ht.redo_fails_iff hi (ha.trans ho.symm)⟩⟩

theorem checkpoint_refines_undoStack_sample :
    HistoryInv sampleDatabase ∧ sampleBlock ∈ sampleDatabase.blocks ∧
    sampleBlock.currentHistoryEntryId = none ∧ sampleBlock.content.valueLengthOk = true ∧
    let calls := [Call.checkpointBlock "block-1" sampleUser none false,
      .updateBlock "block-1" { value := some "abd" } sampleUser, .undoCheckpointBlock "block-1" sampleUser false]
    let s := (UndoStack.init sampleBlock.content).run
      (Call.ops sampleBlock.id sampleBlock.organizationId sampleDatabase calls)
    let db := runCalls sampleDatabase calls
    db.observe sampleBlock.id = some s.view ∧
      ∀ actor : User, actor.organizationId = sampleBlock.organizationId →
        ((∃ e, undoCheckpointBlock db sampleBlock.id actor none = .error e) ↔ s.undo = none) ∧
        ((∃ e, redoCheckpointBlock db sampleBlock.id actor none = .error e) ↔ s.redo = none) :=
  have h : HistoryInv sampleDatabase := Fresh.historyInv ⟨by decide, by decide, rfl, by decide⟩
  ⟨h, List.mem_singleton_self _, rfl, rfl,
    checkpoint_refines_undoStack sampleDatabase h sampleBlock (List.mem_singleton_self _) rfl rfl _⟩

/-! ## Redo after undo -/

section RoundTrip

variable {db : Database} {b : Block}

/-- Every stored block of a reachable state stands for a stack: its own
rows, pointer and content. -/
theorem Tracks.of_historyInv (hi : HistoryInv db) (hb : b ∈ db.blocks) : ∃ s, Tracks db b s := by
  have hc := hi.current b hb
  rcases hp : b.currentHistoryEntryId with _ | i
  · simp only [CurrentOk, hp] at hc
    exact ⟨⟨[], none, b.content, fun _ h => nomatch h⟩, hb, rfl, by rw [hp]; rfl, by rw [hc]; rfl⟩
  · simp only [CurrentOk, hp] at hc
    obtain ⟨e, he, rfl⟩ := hc
    obtain ⟨k, hk, rfl⟩ := List.getElem_of_mem he
    exact ⟨⟨(db.historyOf b.id).map (·.content), some k, b.content, fun _ h => by cases h; simpa using hk⟩,
      hb, rfl, by simp [hp, List.getElem?_eq_getElem hk], rfl⟩

/-- Undo and redo rewrite the block row alone. -/
theorem blockHistory_run_move (hk : db.BlockKeys) (x : String) (actor : User) (p : Bool) :
    ((Call.undoCheckpointBlock x actor p).run db).blockHistory = db.blockHistory ∧
      ((Call.redoCheckpointBlock x actor p).run db).blockHistory = db.blockHistory := by
  rw [run_undoCheckpointBlock hk, run_redoCheckpointBlock hk]
  constructor <;> split <;> (try split) <;> (try split) <;> simp [Database.commitRow, prunes]

theorem historyOf_of_blockHistory {d₁ d₂ : Database} (h : d₁.blockHistory = d₂.blockHistory) (x : String) :
    d₁.historyOf x = d₂.historyOf x := by
  simp [Database.historyOf, h]

/-- **Redo right after undo.** In a reachable state, once undo of a block
succeeds, the redo that follows it succeeds too. It moves the block's
history pointer back to the row it named before the undo and loads that
row's snapshot, and the two calls leave the history table as it was. What
was written to the block since that checkpoint is not brought back. -/
theorem redo_after_undo (hi : HistoryInv db) (hb : b ∈ db.blocks) {actor : User}
    (ho : actor.organizationId = b.organizationId)
    (hu : ∀ e, undoCheckpointBlock db b.id actor none ≠ .error e) :
    let db₁ := (Call.undoCheckpointBlock b.id actor false).run db
    let db₂ := (Call.redoCheckpointBlock b.id actor false).run db₁
    (∀ e, redoCheckpointBlock db₁ b.id actor none ≠ .error e) ∧ db₂.blockHistory = db.blockHistory ∧
      ∃ b' ∈ db₂.blocks, b'.id = b.id ∧ b'.currentHistoryEntryId = b.currentHistoryEntryId ∧
        ∃ e ∈ db.historyOf b.id, b.currentHistoryEntryId = some e.id ∧ b'.content = e.content := by
  intro db₁ db₂
  obtain ⟨s, ht⟩ := Tracks.of_historyInv hi hb
  obtain ⟨s₁, hu₁⟩ := Option.ne_none_iff_exists'.1 fun h => Exists.elim ((ht.undo_fails_iff hi ho).mpr h) hu
  obtain ⟨s₂, hr₂, -, hp₂, k, hp, hc₂⟩ := UndoStack.redo_undo hu₁
  -- the two calls step the block as the stack does
  have hi₁ : HistoryInv db₁ := hi.run _
  obtain ⟨b₁, ht₁, -, hid₁, ho₁⟩ := ht.run_undo hi (.inr ho)
  rw [hu₁, Option.getD_some] at ht₁
  obtain ⟨b₂, ht₂, -, hid₂, -⟩ := ht₁.run_redo hi₁ (.inr (ho.trans ho₁.symm))
  rw [hid₁, hr₂, Option.getD_some] at ht₂
  have hh : db₂.blockHistory = db.blockHistory :=
    (blockHistory_run_move hi₁.keys b.id actor false).2.trans (blockHistory_run_move hi.keys b.id actor false).1
  obtain ⟨hk, hc⟩ := ht.pointer_some hp
  obtain ⟨_, hc'⟩ := ht₂.pointer_some (hp₂.trans hp)
  have hrow : db₂.historyOf b₂.id = db.historyOf b.id := by
    rw [hid₂, hid₁, historyOf_of_blockHistory hh]
  refine ⟨fun e he => ?_, hh, b₂, ht₂.mem, hid₂.trans hid₁, ?_, _, List.getElem_mem hk, hc, ?_⟩
  · exact nomatch hr₂.symm.trans ((ht₁.redo_fails_iff hi₁ (ho.trans ho₁.symm)).mp ⟨e, hid₁ ▸ he⟩)
  · rw [hc', hc]
    simp only [hrow]
  · rw [ht₂.content]
    apply Option.some.inj
    rw [← hc₂, ← ht.snapshots, List.getElem?_map, List.getElem?_eq_getElem hk, Option.map_some']

/-- **A checkpoint clears redo.** In a reachable state, `checkpoint_block`
on a block the actor can read, and which passes the length listener as every
inserted or written block does, makes the block's live content its newest
history row and points the block at that row; a redo right after it fails,
whatever undos came before. -/
theorem checkpoint_clears_redo (hi : HistoryInv db) (hb : b ∈ db.blocks) (hv : b.content.valueLengthOk = true)
    {actor : User} (ho : actor.organizationId = b.organizationId) (agentId : Option String) :
    let db₁ := (Call.checkpointBlock b.id actor agentId false).run db
    (∃ e, redoCheckpointBlock db₁ b.id actor none = .error e) ∧
      ∃ b' ∈ db₁.blocks, b'.id = b.id ∧
        b'.currentHistoryEntryId = ((db₁.historyOf b.id).getLast?).map (·.id) ∧
        ((db₁.historyOf b.id).getLast?).map (·.content) = some b.content := by
  intro db₁
  obtain ⟨s, ht⟩ := Tracks.of_historyInv hi hb
  obtain ⟨b₁, ht₁, -, hid₁, ho₁⟩ := ht.step hi hv (.checkpointBlock b.id actor agentId false)
  simp only [Call.op, ho, or_true, and_self, if_true, UndoStack.step] at ht₁
  have hlen : (db₁.historyOf b.id).length = s.pushed.length := hid₁ ▸ ht₁.length
  refine ⟨hid₁ ▸ (ht₁.redo_fails_iff (hi.run _) (ho.trans ho₁.symm)).2 s.redo_checkpoint,
    b₁, ht₁.mem, hid₁, ?_, ?_⟩
  · rw [ht₁.pointer, hid₁, List.getLast?_eq_getElem?, hlen]
    rfl
  · rw [← List.getLast?_map, ← hid₁, ht₁.snapshots, ht.content]
    exact s.getLast?_pushed

end RoundTrip

/-- The sample block after a checkpoint, an edit and a second checkpoint. -/
def recheckpointedDatabase : Database :=
  runCalls sampleDatabase [.checkpointBlock "block-1" sampleUser none false,
    .updateBlock "block-1" { value := some "abd" } sampleUser, .checkpointBlock "block-1" sampleUser none false]

theorem redo_after_undo_sample :
    let db := recheckpointedDatabase
    let b := { sampleBlock with value := "abd", currentHistoryEntryId := some 1, version := 6 }
    let db₁ := (Call.undoCheckpointBlock b.id sampleUser false).run db
    let db₂ := (Call.redoCheckpointBlock b.id sampleUser false).run db₁
    HistoryInv db ∧ b ∈ db.blocks ∧ sampleUser.organizationId = b.organizationId ∧
      (∀ e, undoCheckpointBlock db b.id sampleUser none ≠ .error e) ∧
      (∀ e, redoCheckpointBlock db₁ b.id sampleUser none ≠ .error e) ∧ db₂.blockHistory = db.blockHistory ∧
      ∃ b' ∈ db₂.blocks, b'.id = b.id ∧ b'.currentHistoryEntryId = b.currentHistoryEntryId ∧
        ∃ e ∈ db.historyOf b.id, b.currentHistoryEntryId = some e.id ∧ b'.content = e.content :=
  have hi : HistoryInv recheckpointedDatabase :=
    historyInv_runCalls (Fresh.historyInv ⟨by decide, by decide, rfl, by decide⟩) _
  have hb : { sampleBlock with value := "abd", currentHistoryEntryId := some 1, version := 6 } ∈
      recheckpointedDatabase.blocks := by decide
  have hu : ∀ e, undoCheckpointBlock recheckpointedDatabase "block-1" sampleUser none ≠ .error e := by
    intro e h
    have hok : (undoCheckpointBlock recheckpointedDatabase "block-1" sampleUser none).toBool = true := by
      decide
    rw [h] at hok
    cases hok
  ⟨hi, hb, rfl, hu, redo_after_undo hi hb rfl hu⟩

/-- The sample block after an undo: its second checkpoint is a redo tail. -/
def undoneDatabase : Database :=
  (Call.undoCheckpointBlock "block-1" sampleUser false).run recheckpointedDatabase

theorem checkpoint_clears_redo_sample :
    let b := { sampleBlock with currentHistoryEntryId := some 0, version := 8 }
    let db₁ := (Call.checkpointBlock b.id sampleUser none false).run undoneDatabase
    HistoryInv undoneDatabase ∧ b ∈ undoneDatabase.blocks ∧ b.content.valueLengthOk = true ∧
      sampleUser.organizationId = b.organizationId ∧
      (∃ e, redoCheckpointBlock db₁ b.id sampleUser none = .error e) ∧
      ∃ b' ∈ db₁.blocks, b'.id = b.id ∧
        b'.currentHistoryEntryId = ((db₁.historyOf b.id).getLast?).map (·.id) ∧
        ((db₁.historyOf b.id).getLast?).map (·.content) = some b.content :=
  have hi : HistoryInv undoneDatabase :=
    (historyInv_runCalls (Fresh.historyInv ⟨by decide, by decide, rfl, by decide⟩) _).run _
  have hb : { sampleBlock with currentHistoryEntryId := some 0, version := 8 } ∈ undoneDatabase.blocks := by
    decide
  ⟨hi, hb, rfl, rfl, checkpoint_clears_redo hi hb rfl rfl none⟩

end Letta
