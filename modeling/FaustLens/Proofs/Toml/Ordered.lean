import FaustLens.Toml.Reader
import Mathlib.Data.List.Basic

/-!
# Tables with increasing keys

A table of the library `toml` is a map: its entries have distinct keys and are kept in increasing
order of them. This holds of all tables in a document that is read, at any depth
(`ordered_of_read?`).

While a document is read, the entries of a table stand in the order in which they came, and only
their keys are distinct (`Node.Distinct`). Each step of the reader keeps them so, because it puts an
entry into the place of the one with its key. The order comes about at the end, when the entries are
inserted into a table one by one.

Results:
* `Ordered.of_get?`: the values in an ordered table are ordered.
* `DistinctEntries.modifyAt?`: changing the table that a path leads to keeps keys distinct.
* `Node.Distinct.ordered_toValue`: entries with distinct keys make an ordered table.
* `Reader.keeps`: a value that is read is ordered, and its entries have distinct keys.
* `Reader.Document.Distinct.document?`: reading lines keeps the keys of a document distinct.
* `ordered_of_read?`: a document that is read is ordered.
-/

namespace FaustLens.Toml

/-- The keys of the table increase. -/
def KeysIncrease (t : Table) : Prop := t.Pairwise fun a b => a.1 < b.1

/-- The value is neither an array nor a table. -/
def IsScalar (v : Toml) : Prop := v.array? = none ∧ v.table? = none

/-- The keys of all tables in the value increase. -/
inductive Ordered : Toml → Prop
  | scalar {v : Toml} (h : IsScalar v) : Ordered v
  | array {es : List Toml} (h : ∀ v ∈ es, Ordered v) : Ordered (.array es)
  | table {t : Table} (hkeys : KeysIncrease t) (h : ∀ e ∈ t, Ordered e.2) : Ordered (.table t)

theorem Ordered.keysIncrease {t : Table} (h : Ordered (.table t)) : KeysIncrease t := by
  cases h with
  | scalar h => exact absurd h.2 (by simp [table?])
  | table hkeys _ => exact hkeys

theorem Ordered.of_get? {t : Table} {key : String} {v : Toml} (h : Ordered (.table t))
    (hvalue : get? t key = some v) : Ordered v := by
  cases h with
  | scalar h => exact absurd h.2 (by simp [table?])
  | table _ hentries =>
    obtain ⟨before, after, rfl, -⟩ := List.lookup_eq_some_iff.mp hvalue
    exact hentries (key, v) (by simp)

/-- A new key keeps the order. -/
theorem KeysIncrease.insertEntry {t : Table} {key : String} {value : Toml} (h : KeysIncrease t)
    (hnew : key ∉ t.map (·.1)) : KeysIncrease (insertEntry key value t) := by
  unfold KeysIncrease at h ⊢
  induction t with
  | nil => simp [Toml.insertEntry]
  | cons e t ih =>
    obtain ⟨k, v⟩ := e
    rw [List.map_cons, List.mem_cons, not_or] at hnew
    obtain ⟨hfirst, hrest⟩ := List.pairwise_cons.mp h
    rw [Toml.insertEntry]
    split
    · rename_i hlt
      refine List.pairwise_cons.mpr ⟨List.forall_mem_cons.mpr ⟨hlt, fun e he => ?_⟩, h⟩
      exact String.lt_trans hlt (hfirst e he)
    · rename_i hle
      refine List.pairwise_cons.mpr ⟨fun e he => ?_, ih hrest hnew.2⟩
      rcases mem_insertEntry.mp he with rfl | he
      · exact Std.lt_of_le_of_ne hle (Ne.symm hnew.1)
      · exact hfirst e he

/-! ## Entries with distinct keys -/

namespace Node

/-- No table in the part of a document has a key twice. -/
inductive Distinct : Node → Prop
  | value {v : Toml} (h : v.Ordered) : Distinct (.value v)
  | table {origin : Origin} {es : Entries} (hkeys : (es.map (·.1)).Nodup)
      (h : ∀ e ∈ es, Distinct e.2) : Distinct (.table origin es)
  | tables {elements : List Entries} (hkeys : ∀ es ∈ elements, (es.map (·.1)).Nodup)
      (h : ∀ es ∈ elements, ∀ e ∈ es, Distinct e.2) : Distinct (.tables elements)

/-- No key stands twice among the entries or in one of them. -/
def DistinctEntries (es : Entries) : Prop := (es.map (·.1)).Nodup ∧ ∀ e ∈ es, e.2.Distinct

theorem distinctEntries_nil : DistinctEntries [] := ⟨List.nodup_nil, by simp⟩

theorem mem_put {key : String} {n : Node} {es : Entries} {e : String × Node}
    (h : e ∈ put key n es) : e = (key, n) ∨ e ∈ es := by
  induction es with
  | nil => exact Or.inl (List.mem_singleton.mp h)
  | cons first es ih =>
    obtain ⟨k, m⟩ := first
    rw [put] at h
    split at h
    · rename_i hk
      rcases List.mem_cons.mp h with rfl | h
      · exact Or.inl (by rw [hk])
      · exact Or.inr (List.mem_cons_of_mem _ h)
    · rcases List.mem_cons.mp h with rfl | h
      · exact Or.inr List.mem_cons_self
      · exact (ih h).imp_right (List.mem_cons_of_mem _)

theorem nodup_put {key : String} {n : Node} {es : Entries} (h : (es.map (·.1)).Nodup) :
    ((put key n es).map (·.1)).Nodup := by
  induction es with
  | nil => simp [put]
  | cons first es ih =>
    obtain ⟨k, m⟩ := first
    obtain ⟨hnot, hrest⟩ := List.nodup_cons.mp h
    rw [put]
    split
    · exact h
    · rename_i hk
      refine List.nodup_cons.mpr ⟨fun hmem => ?_, ih hrest⟩
      obtain ⟨e, he, hkey⟩ := List.mem_map.mp hmem
      rcases mem_put he with rfl | he
      · exact hk hkey.symm
      · exact hnot (List.mem_map.mpr ⟨e, he, hkey⟩)

namespace DistinctEntries

variable {es : Entries} {key : String} {n : Node} {fresh origin : Origin} {path : List String}

theorem put (h : DistinctEntries es) (hn : n.Distinct) : DistinctEntries (put key n es) := by
  refine ⟨nodup_put h.1, fun e he => ?_⟩
  rcases mem_put he with rfl | he
  · exact hn
  · exact h.2 e he

theorem remove (h : DistinctEntries es) : DistinctEntries (remove key es) :=
  ⟨h.1.sublist (List.filter_sublist.map _), fun e he => h.2 e (List.mem_of_mem_filter he)⟩

theorem of_lookup (h : DistinctEntries es) (hlookup : es.lookup key = some n) : n.Distinct := by
  obtain ⟨before, after, rfl, -⟩ := List.lookup_eq_some_iff.mp hlookup
  exact h.2 (key, n) (by simp)

/-- **Changing a table** that a path leads to keeps keys distinct, if the change of the table does.
The same goes for what is known of the result besides. -/
theorem modifyAt? {α : Type} {f : Origin → Entries → Option (α × Entries)} {P : α → Prop}
    (hf : ∀ origin es r, DistinctEntries es → f origin es = some r → P r.1 ∧ DistinctEntries r.2)
    {r : α × Entries} (h : DistinctEntries es)
    (hmodify : Node.modifyAt? fresh f origin path es = some r) : P r.1 ∧ DistinctEntries r.2 := by
  -- Each step of the path goes into a table that is fresh, or that stands in a distinct one.
  induction path generalizing origin es r with
  | nil => exact hf origin es r h hmodify
  | cons key path ih =>
    rw [Node.modifyAt?] at hmodify
    split at hmodify
    · obtain ⟨⟨a, sub⟩, hsub, rfl⟩ := Option.map_eq_some_iff.mp hmodify
      obtain ⟨ha, hsub⟩ := ih distinctEntries_nil hsub
      exact ⟨ha, h.put (.table hsub.1 hsub.2)⟩
    · exact absurd hmodify (by simp)
    · rename_i origin sub hlookup
      split at hmodify
      · exact absurd hmodify (by simp)
      · obtain ⟨⟨a, sub'⟩, hsub', rfl⟩ := Option.map_eq_some_iff.mp hmodify
        cases h.of_lookup hlookup with
        | table hkeys hentries =>
          obtain ⟨ha, hsub'⟩ := ih ⟨hkeys, hentries⟩ hsub'
          exact ⟨ha, h.put (.table hsub'.1 hsub'.2)⟩
    · exact absurd hmodify (by simp)
    · rename_i last others hlookup
      obtain ⟨⟨a, sub⟩, hsub, rfl⟩ := Option.map_eq_some_iff.mp hmodify
      cases h.of_lookup hlookup with
      | tables hkeys hentries =>
        rw [List.forall_mem_cons] at hkeys hentries
        obtain ⟨ha, hsub⟩ := ih ⟨hkeys.1, hentries.1⟩ hsub
        exact ⟨ha, h.put (.tables (List.forall_mem_cons.mpr ⟨hsub.1, hkeys.2⟩)
          (List.forall_mem_cons.mpr ⟨hsub.2, hentries.2⟩))⟩

/-- A change of a table that has no result besides. -/
theorem modifyTable? {f : Origin → Entries → Option (Unit × Entries)}
    (hf : ∀ origin es r, DistinctEntries es → f origin es = some r → DistinctEntries r.2)
    {es' : Entries} (h : DistinctEntries es)
    (hmodify : (Node.modifyAt? fresh f origin path es).map (·.2) = some es') :
    DistinctEntries es' := by
  obtain ⟨r, hr, rfl⟩ := Option.map_eq_some_iff.mp hmodify
  have hresult := h.modifyAt? (P := fun _ => True)
    (fun origin es r hes hstep => ⟨trivial, hf origin es r hes hstep⟩) hr
  exact hresult.2

theorem insertAt? {v : Toml} {es' : Entries} (h : DistinctEntries es) (hv : v.Ordered)
    (hinsert : Node.insertAt? path key v es = some es') : DistinctEntries es' := by
  refine h.modifyTable? (fun origin es r hes hstep => ?_) hinsert
  split at hstep
  · exact absurd hstep (by simp)
  · split at hstep
    · exact absurd hstep (by simp)
    · obtain rfl := Option.some.inj hstep
      exact hes.put (.value hv)

theorem openTable? {r : Entries × Entries} (h : DistinctEntries es)
    (hopen : Node.openTable? path key es = some r) :
    DistinctEntries r.1 ∧ DistinctEntries r.2 := by
  refine h.modifyAt? (fun origin es r hes hstep => ?_) hopen
  split at hstep
  · obtain rfl := Option.some.inj hstep
    exact ⟨distinctEntries_nil, hes⟩
  · rename_i sub hlookup
    obtain rfl := Option.some.inj hstep
    cases hes.of_lookup hlookup with
    | table hkeys hentries => exact ⟨⟨hkeys, hentries⟩, hes.remove⟩
  · exact absurd hstep (by simp)

theorem closeTable? {current es' : Entries} (h : DistinctEntries es)
    (hcurrent : DistinctEntries current)
    (hclose : Node.closeTable? path key current es = some es') : DistinctEntries es' := by
  refine h.modifyTable? (fun origin es r hes hstep => ?_) hclose
  obtain rfl := Option.some.inj hstep
  exact hes.put (.table hcurrent.1 hcurrent.2)

theorem openTables? {es' : Entries} (h : DistinctEntries es)
    (hopen : Node.openTables? path key es = some es') : DistinctEntries es' := by
  refine h.modifyTable? (fun origin es r hes hstep => ?_) hopen
  split at hstep
  · obtain rfl := Option.some.inj hstep
    exact hes
  · obtain rfl := Option.some.inj hstep
    exact hes
  · exact absurd hstep (by simp)

theorem appendTable? {current es' : Entries} (h : DistinctEntries es)
    (hcurrent : DistinctEntries current)
    (happend : Node.appendTable? path key current es = some es') : DistinctEntries es' := by
  refine h.modifyTable? (fun origin es r hes hstep => ?_) happend
  split at hstep
  · obtain rfl := Option.some.inj hstep
    exact hes.put (.tables (by simpa using hcurrent.1) (by simpa using hcurrent.2))
  · rename_i elements hlookup
    obtain rfl := Option.some.inj hstep
    cases hes.of_lookup hlookup with
    | tables hkeys hentries =>
      exact hes.put (.tables (List.forall_mem_cons.mpr ⟨hcurrent.1, hkeys⟩)
        (List.forall_mem_cons.mpr ⟨hcurrent.2, hentries⟩))
  · exact absurd hstep (by simp)

end DistinctEntries

/-! ## Finished values -/

theorem mem_entriesToTable_iff {es : Entries} {e : String × Toml} :
    e ∈ entriesToTable es ↔ ∃ x ∈ es, e = (x.1, x.2.toValue) := by
  induction es with
  | nil => simp [entriesToTable]
  | cons x es ih =>
    obtain ⟨k, n⟩ := x
    rw [entriesToTable, mem_insertEntry, ih]
    simp

theorem mem_tablesToValues_iff {elements : List Entries} {v : Toml} :
    v ∈ tablesToValues elements ↔ ∃ es ∈ elements, v = .table (entriesToTable es) := by
  induction elements with
  | nil => simp [tablesToValues]
  | cons es elements ih => simp [tablesToValues, ih]

/-- **Entries with distinct keys** make a table with increasing keys. -/
theorem keysIncrease_entriesToTable {es : Entries} (h : (es.map (·.1)).Nodup) :
    KeysIncrease (entriesToTable es) := by
  induction es with
  | nil => exact List.Pairwise.nil
  | cons x es ih =>
    obtain ⟨k, n⟩ := x
    obtain ⟨hnot, hrest⟩ := List.nodup_cons.mp h
    rw [entriesToTable]
    refine (ih hrest).insertEntry fun hmem => hnot ?_
    obtain ⟨e, he, hkey⟩ := List.mem_map.mp hmem
    obtain ⟨x, hx, rfl⟩ := mem_entriesToTable_iff.mp he
    exact List.mem_map.mpr ⟨x, hx, hkey⟩

/-- The table of some entries is ordered if their values are. -/
theorem ordered_entriesToTable {es : Entries} (hkeys : (es.map (·.1)).Nodup)
    (h : ∀ e ∈ es, e.2.toValue.Ordered) : Ordered (.table (entriesToTable es)) := by
  refine .table (keysIncrease_entriesToTable hkeys) fun e he => ?_
  obtain ⟨x, hx, rfl⟩ := mem_entriesToTable_iff.mp he
  exact h x hx

/-- **A part of a document** without a key that stands twice is an ordered value. -/
theorem Distinct.ordered_toValue {n : Node} (h : n.Distinct) : n.toValue.Ordered := by
  induction h with
  | value h =>
    rw [toValue]
    exact h
  | table hkeys _ ih =>
    rw [toValue]
    exact ordered_entriesToTable hkeys ih
  | tables hkeys _ ih =>
    rw [toValue]
    refine .array fun v hv => ?_
    obtain ⟨es, hes, rfl⟩ := mem_tablesToValues_iff.mp (List.mem_reverse.mp hv)
    exact ordered_entriesToTable (hkeys es hes) (ih es hes)

theorem DistinctEntries.ordered {es : Entries} (h : DistinctEntries es) :
    Ordered (.table (entriesToTable es)) :=
  ordered_entriesToTable h.1 fun e he => (h.2 e he).ordered_toValue

end Node

/-! ## Reading -/

namespace Reader

theorem isScalar_of_inRange? {n : Int} {v : Toml} (h : inRange? n = some v) : IsScalar v := by
  unfold inRange? at h
  split at h
  · obtain rfl := Option.some.inj h
    exact ⟨rfl, rfl⟩
  · exact absurd h (by simp)

theorem isScalar_of_basedInteger? {base : Nat} {s : Text} {r : Toml × Text}
    (h : basedInteger? base s = some r) : IsScalar r.1 := by
  obtain ⟨⟨digits, rest⟩, -, h⟩ := Option.bind_eq_some_iff.mp h
  obtain ⟨v, hv, h⟩ := Option.bind_eq_some_iff.mp h
  obtain rfl := Option.some.inj h
  exact isScalar_of_inRange? hv

theorem isScalar_of_integer? {s : Text} {r : Toml × Text} (h : integer? s = some r) :
    IsScalar r.1 := by
  unfold integer? at h
  split at h
  · exact isScalar_of_basedInteger? h
  · exact isScalar_of_basedInteger? h
  · exact isScalar_of_basedInteger? h
  · obtain ⟨⟨digits, rest⟩, -, h⟩ := Option.bind_eq_some_iff.mp h
    obtain ⟨v, hv, h⟩ := Option.bind_eq_some_iff.mp h
    obtain rfl := Option.some.inj h
    exact isScalar_of_inRange? hv

theorem isScalar_of_float? {s : Text} {r : Toml × Text} (h : float? s = some r) :
    IsScalar r.1 := by
  unfold float? at h
  dsimp only at h
  split at h
  · obtain rfl := Option.some.inj h
    exact ⟨rfl, rfl⟩
  · obtain rfl := Option.some.inj h
    exact ⟨rfl, rfl⟩
  · obtain ⟨⟨whole, rest⟩, -, h⟩ := Option.bind_eq_some_iff.mp h
    dsimp only at h
    split at h
    · exact absurd h (by simp)
    · split at h
      · exact absurd h (by simp)
      · obtain rfl := Option.some.inj h
        exact ⟨rfl, rfl⟩

theorem isScalar_of_datetime? {s : Text} {r : Toml × Text} (h : datetime? s = some r) :
    IsScalar r.1 := by
  unfold datetime? at h
  split at h
  · obtain ⟨x, -, rfl⟩ := Option.map_eq_some_iff.mp h
    exact ⟨rfl, rfl⟩
  · split at h
    · split at h
      · split at h
        · obtain rfl := Option.some.inj h
          exact ⟨rfl, rfl⟩
        · obtain ⟨x, -, rfl⟩ := Option.map_eq_some_iff.mp h
          exact ⟨rfl, rfl⟩
      · obtain rfl := Option.some.inj h
        exact ⟨rfl, rfl⟩
    · obtain rfl := Option.some.inj h
      exact ⟨rfl, rfl⟩

theorem isScalar_of_number? {s : Text} {r : Toml × Text} (h : number? s = some r) :
    IsScalar r.1 := by
  unfold number? at h
  split at h
  · rename_i result hdatetime
    obtain rfl := Option.some.inj h
    exact isScalar_of_datetime? hdatetime
  · split at h
    · rename_i result hfloat
      obtain rfl := Option.some.inj h
      exact isScalar_of_float? hfloat
    · exact isScalar_of_integer? h

theorem isScalar_of_scalar? {s : Text} {r : Toml × Text} (h : scalar? s = some r) :
    IsScalar r.1 := by
  unfold scalar? at h
  split at h
  · exact absurd h (by simp)
  · obtain rfl := Option.some.inj h
    exact ⟨rfl, rfl⟩
  · obtain rfl := Option.some.inj h
    exact ⟨rfl, rfl⟩
  · split at h
    · obtain ⟨x, -, rfl⟩ := Option.map_eq_some_iff.mp h
      exact ⟨rfl, rfl⟩
    · split at h
      · exact isScalar_of_float? h
      · split at h
        · exact isScalar_of_number? h
        · exact absurd h (by simp)

/-- What the readers of values keep, if they may make `n` nested calls. -/
structure Keeps (n : Nat) : Prop where
  value : ∀ {depth s r}, value? n depth s = some r → r.1.Ordered
  elements : ∀ {depth read s r}, (∀ v ∈ read, Ordered v) → elements? n depth read s = some r →
    ∀ v ∈ r.1, v.Ordered
  members : ∀ {depth es s r}, Node.DistinctEntries es → members? n depth es s = some r →
    Node.DistinctEntries r.1

theorem keeps (n : Nat) : Keeps n := by
  -- The readers call each other with one call less, so all they keep is carried together.
  induction n with
  | zero => exact ⟨by simp [value?], by simp [elements?], by simp [members?]⟩
  | succ n ih =>
    refine ⟨fun {depth s r} h => ?_, fun {depth read s r} hread h => ?_,
      fun {depth es s r} hes h => ?_⟩
    · rw [value?.eq_def] at h
      dsimp only at h
      split at h
      · split at h
        · obtain ⟨⟨es, rest⟩, hes, rfl⟩ := Option.map_eq_some_iff.mp h
          exact .array (ih.elements (by simp) hes)
        · exact absurd h (by simp)
      · split at h
        · split at h
          · obtain rfl := Option.some.inj h
            exact Node.distinctEntries_nil.ordered
          · obtain ⟨⟨es, rest⟩, hes, rfl⟩ := Option.map_eq_some_iff.mp h
            exact (ih.members Node.distinctEntries_nil hes).ordered
        · exact absurd h (by simp)
      · exact .scalar (isScalar_of_scalar? h)
    · rw [elements?.eq_def] at h
      dsimp only at h
      split at h
      · obtain rfl := Option.some.inj h
        exact fun v hv => hread v (List.mem_reverse.mp hv)
      · split at h
        · exact absurd h (by simp)
        · rename_i v rest hv
          have hmore : ∀ x ∈ v :: read, Ordered x :=
            List.forall_mem_cons.mpr ⟨ih.value hv, hread⟩
          split at h
          · exact ih.elements hmore h
          · obtain rfl := Option.some.inj h
            exact fun x hx => hmore x (List.mem_reverse.mp hx)
          · exact absurd h (by simp)
    · rw [members?.eq_def] at h
      dsimp only at h
      split at h
      · split at h
        · exact absurd h (by simp)
        · rename_i v rest hv
          split at h
          · exact absurd h (by simp)
          · rename_i es' hes'
            have hmore := hes.insertAt? (ih.value hv) hes'
            split at h
            · exact ih.members hmore h
            · obtain rfl := Option.some.inj h
              exact hmore
            · exact absurd h (by simp)
      · exact absurd h (by simp)

/-! ## Documents -/

namespace Document

/-- No key stands twice in the finished part or below the last header. -/
structure Distinct (d : Document) : Prop where
  finished : Node.DistinctEntries d.finished
  current : Node.DistinctEntries d.current

variable {d d' : Document}

theorem Distinct.close? {es : Node.Entries} (h : d.Distinct) (hclose : d.close? = some es) :
    Node.DistinctEntries es := by
  unfold Document.close? at hclose
  split at hclose
  · obtain rfl := Option.some.inj hclose
    exact h.current
  · exact h.finished.closeTable? h.current hclose
  · exact h.finished.appendTable? h.current hclose

theorem Distinct.openHeader? {header : Header} (h : d.Distinct)
    (hopen : d.openHeader? header = some d') : d'.Distinct := by
  obtain ⟨finished, hclose, hopen⟩ := Option.bind_eq_some_iff.mp hopen
  have hfinished := h.close? hclose
  cases header with
  | root => exact absurd hopen (by simp)
  | table path key =>
    obtain ⟨⟨current, finished⟩, htable, hopen⟩ := Option.bind_eq_some_iff.mp hopen
    obtain rfl := Option.some.inj hopen
    obtain ⟨hcurrent, hfinished⟩ := hfinished.openTable? htable
    exact ⟨hfinished, hcurrent⟩
  | element path key =>
    obtain ⟨finished, htables, hopen⟩ := Option.bind_eq_some_iff.mp hopen
    obtain rfl := Option.some.inj hopen
    exact ⟨hfinished.openTables? htables, Node.distinctEntries_nil⟩

theorem Distinct.entry? {s : Text} {r : Document × Text} (h : d.Distinct)
    (hentry : entry? d s = some r) : r.1.Distinct := by
  unfold Reader.entry? at hentry
  split at hentry
  · obtain ⟨⟨v, rest⟩, hv, hentry⟩ := Option.bind_eq_some_iff.mp hentry
    obtain ⟨current, hinsert, hentry⟩ := Option.bind_eq_some_iff.mp hentry
    obtain rfl := Option.some.inj hentry
    exact ⟨h.finished, h.current.insertAt? ((keeps _).value hv) hinsert⟩
  · exact absurd hentry (by simp)

/-- **Reading lines** keeps the keys of a document distinct. -/
theorem Distinct.document? {n : Nat} {s : Text} (h : d.Distinct)
    (hread : document? n d s = some d') : d'.Distinct := by
  induction n generalizing d s with
  | zero => exact absurd hread (by simp [Reader.document?])
  | succ n ih =>
    rw [Reader.document?] at hread
    split at hread
    · obtain rfl := Option.some.inj hread
      exact h
    · obtain ⟨⟨header, rest⟩, -, hread⟩ := Option.bind_eq_some_iff.mp hread
      obtain ⟨d₁, hopen, hread⟩ := Option.bind_eq_some_iff.mp hread
      obtain ⟨rest, -, hread⟩ := Option.bind_eq_some_iff.mp hread
      exact ih (h.openHeader? hopen) hread
    · split at hread
      · obtain ⟨rest, -, hread⟩ := Option.bind_eq_some_iff.mp hread
        exact ih h hread
      · obtain ⟨⟨d₁, rest⟩, hentry, hread⟩ := Option.bind_eq_some_iff.mp hread
        obtain ⟨rest, -, hread⟩ := Option.bind_eq_some_iff.mp hread
        exact ih (h.entry? hentry) hread

end Document

end Reader

/-- **A document that is read** is a table with increasing keys, and so are all tables in it. -/
theorem ordered_of_read? {text : Text} {table : Table} (h : read? text = some table) :
    Ordered (.table table) := by
  obtain ⟨d, hread, h⟩ := Option.bind_eq_some_iff.mp h
  obtain ⟨es, hclose, h⟩ := Option.bind_eq_some_iff.mp h
  obtain rfl := Option.some.inj h
  have hempty : ({} : Reader.Document).Distinct :=
    ⟨Node.distinctEntries_nil, Node.distinctEntries_nil⟩
  exact ((hempty.document? hread).close? hclose).ordered

end FaustLens.Toml
