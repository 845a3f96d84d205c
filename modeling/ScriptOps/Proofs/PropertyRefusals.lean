import ScriptOps.Proofs.PropertyWrites

/-!
# Which assignments are refused

Reading a property asks the nearest object that has it. An assignment asks another question on its
way along the prototypes, who has a say on writing, and there an implicit property counts for
nothing unless it is the name of a function: the elements and the length of an array and what a host
object shows are passed by. Usually both walks stop at the same object, and a property is refused
exactly when it is read-only. They part where such a silent property shadows a read-only one of the
same key: the property that is read could be written, yet the one above refuses the assignment.
-/

namespace ScriptOps

/-! ### Properties that refuse, and properties without a say -/

namespace ObjectKind

variable {kind : ObjectKind} {key : String}

/-- The kind brings a property that says nothing on assignments: an element or the length of an
array, or what a host object shows. -/
def IsSilent (kind : ObjectKind) (key : String) : Prop :=
  match kind with
  | array e => key = "length" ∨ ∃ index, arrayIndexOfKey? key = some index ∧ e.contains index
  | host h => ∃ v, h.shown key = some v
  | _ => False

/-- The only property that an object's kind fixes is the name of a function. -/
theorem isFixed_iff : kind.isFixed key = true ↔ (∃ f, kind = function f) ∧ key = "name" := by
  cases kind <;> simp [isFixed, function?]

/-- A kind that is silent about a property does not fix it. -/
theorem IsSilent.isFixed_eq_false (h : kind.IsSilent key) : kind.isFixed key = false := by
  cases kind with
  | array | host => rfl
  | ordinary | function | date | hostType => exact h.elim

/-- Of the implicit properties only the name of a function has a say. -/
theorem hasImplicit_iff :
    kind.hasImplicit key = true ↔ kind.isFixed key = true ∨ kind.IsSilent key := by
  cases kind with
  | array e =>
    by_cases hkey : key = "length"
    · simp [hasImplicit, IsSilent, hkey]
    · cases hindex : arrayIndexOfKey? key <;>
        simp [hasImplicit, isFixed, function?, IsSilent, hkey, hindex]
  | function f => simp [hasImplicit, isFixed, function?, IsSilent]
  | host h => simp [hasImplicit, isFixed, function?, IsSilent, Option.isSome_iff_exists]
  | ordinary | date | hostType => simp [hasImplicit, isFixed, function?, IsSilent]

end ObjectKind

namespace Object

variable {o : Object} {key : String}

/-- The object has the property and lets nobody assign it: an explicit property that is read-only,
or the name of a function. -/
def IsReadOnly (o : Object) (key : String) : Prop :=
  (∃ v, o.properties.get? key = some ⟨v, false⟩) ∨
    o.properties.get? key = none ∧ (∃ f, o.kind = .function f) ∧ key = "name"

/-- The object has the property and says nothing on assignments. -/
def IsSilent (o : Object) (key : String) : Prop :=
  o.properties.get? key = none ∧ o.kind.IsSilent key

/-- A property is not writable exactly if the object holds it read-only. -/
theorem writable?_eq_false_iff : o.writable? key = some false ↔ o.IsReadOnly key := by
  unfold writable? IsReadOnly
  rw [← ObjectKind.isFixed_iff]
  cases o.properties.get? key with
  | some p =>
    obtain ⟨v, writable⟩ := p
    simp
  | none => simp

/-- Who says nothing has no such property, or a silent one. -/
theorem writable?_eq_none_iff :
    o.writable? key = none ↔ (o.hasOwn key = true → o.IsSilent key) := by
  unfold writable? hasOwn IsSilent Table.contains
  cases o.properties.get? key with
  | some p => simp
  | none =>
    have himplicit : o.kind.hasImplicit key = true ↔
        o.kind.isFixed key = true ∨ o.kind.IsSilent key :=
      ObjectKind.hasImplicit_iff
    cases hfixed : o.kind.isFixed key with
    | true =>
      have hsay : ¬o.kind.IsSilent key := fun h => nomatch hfixed.symm.trans h.isFixed_eq_false
      simp [himplicit, hfixed, hsay]
    | false => simp [himplicit, hfixed]

/-- A read-only property is an own one. -/
theorem IsReadOnly.hasOwn (h : o.IsReadOnly key) : o.hasOwn key = true := by
  rcases h with ⟨v, hproperty⟩ | ⟨-, hfixed⟩
  · rw [Object.hasOwn, Table.contains, hproperty]
    rfl
  · rw [Object.hasOwn, ObjectKind.hasImplicit_iff.2 (.inl (ObjectKind.isFixed_iff.2 hfixed)),
      Bool.or_true]

end Object

/-- A number that an array can have as its length: an integer from 0 to `2 ^ 32 - 1`. -/
def Value.IsArrayLength (v : Value) : Prop :=
  ∃ n : Nat, n ≤ maxArrayLength ∧ (Value.primitive (Primitive.ofInt n)).same v = true

/-- An object takes every assignment to its own properties, except that the length of an array stays
a length. -/
theorem Object.assigned?_eq_none_iff {o : Object} {key : String} {v : Value} :
    o.assigned? key v = none ↔ (∃ e, o.kind = .array e) ∧ key = "length" ∧ ¬v.IsArrayLength := by
  have hlength : Elements.lengthOf? v = none ↔ ¬v.IsArrayLength := by
    rw [← not_iff_not, not_not, ← Ne, Option.ne_none_iff_exists']
    exact exists_congr fun n => Elements.lengthOf?_eq_some_iff
  unfold assigned?
  cases hkind : o.kind with
  | array e =>
    cases hindex : arrayIndexOfKey? key with
    | some index => simp [ne_length_of_arrayIndexOfKey? hindex]
    | none => by_cases hkey : key = "length" <;> simp [hkey, hlength]
  | ordinary | function | date | host | hostType => simp

namespace Heap

variable {h : Heap} {id o : ObjectId} {key : String}

/-! ### The nearest property -/

/-- The nearest object of the chain that has a property. -/
def nearest? (h : Heap) (id : ObjectId) (key : String) : Option ObjectId :=
  (h.chain id).find? fun o => (h.object o).hasOwn key

/-- The nearest property is silent, and the first one above it that is not is read-only. -/
def IsOverruled (h : Heap) (id : ObjectId) (key : String) : Prop :=
  ∃ nearest, h.nearest? id key = some nearest ∧ (h.object nearest).IsSilent key ∧
    ∃ below o above, h.chain id = below ++ o :: above ∧ nearest ∈ below ∧
      (∀ other ∈ below, (h.object other).hasOwn key = true → (h.object other).IsSilent key) ∧
      (h.object o).IsReadOnly key

/-- A property cannot be assigned if the first object with a say refuses. -/
theorem isWritable_eq_false_iff_first :
    h.isWritable id key = false ↔
      ∃ below o above, h.chain id = below ++ o :: above ∧ (h.object o).IsReadOnly key ∧
        ∀ other ∈ below, (h.object other).hasOwn key = true → (h.object other).IsSilent key := by
  have hfirst : h.isWritable id key = false ↔
      ((h.chain id).findSome? fun o => (h.object o).writable? key) = some false := by
    unfold isWritable
    cases (h.chain id).findSome? fun o => (h.object o).writable? key <;> simp
  rw [hfirst, List.findSome?_eq_some_iff]
  simp only [Object.writable?_eq_false_iff, Object.writable?_eq_none_iff]

/-- That object has the nearest property, or overrules it. -/
theorem isWritable_eq_false_iff :
    h.isWritable id key = false ↔
      (∃ o, h.nearest? id key = some o ∧ (h.object o).IsReadOnly key) ∨
        h.IsOverruled id key := by
  rw [isWritable_eq_false_iff_first]
  constructor
  · rintro ⟨below, o, above, hchain, hreadOnly, hbelow⟩
    have hnearest : h.nearest? id key =
        (below.find? fun other => (h.object other).hasOwn key).or (some o) := by
      rw [nearest?, hchain, List.find?_append, List.find?_cons, hreadOnly.hasOwn]
    cases hfind : below.find? fun other => (h.object other).hasOwn key with
    | none =>
      rw [hfind] at hnearest
      exact .inl ⟨o, hnearest, hreadOnly⟩
    | some nearest =>
      rw [hfind] at hnearest
      have hmem := List.mem_of_find?_eq_some hfind
      have hown := List.find?_some (p := fun other => (h.object other).hasOwn key) hfind
      have hsilent := hbelow nearest hmem hown
      exact .inr ⟨nearest, hnearest, hsilent, below, o, above, hchain, hmem, hbelow, hreadOnly⟩
  · rintro (⟨o, hnearest, hreadOnly⟩ |
      ⟨nearest, -, -, below, o, above, hchain, -, hbelow, hreadOnly⟩)
    · obtain ⟨-, below, above, hchain, hbelow⟩ := List.find?_eq_some_iff_append.1 hnearest
      refine ⟨below, o, above, hchain, hreadOnly, fun other hother hown => ?_⟩
      have hmissing := hbelow other hother
      rw [hown] at hmissing
      nomatch hmissing
    · exact ⟨below, o, above, hchain, hreadOnly, hbelow⟩

end Heap

/-- An assignment is refused exactly when the nearest property of the key is read-only, when it
would give an array a length that is none, or when a read-only property overrules a silent one. A
read-only property is an explicit one that was made so, or the name of a function; a silent one is
an element or the length of an array, or what a host object shows. -/
theorem assignment_refused_iff (w : World) (id : ObjectId) (key : String) (v : Value) :
    ∃ accepted w', Action.assign id key v w = .ok accepted w' ∧
      (accepted = false ↔
        (∃ o, w.heap.nearest? id key = some o ∧ (w.heap.object o).IsReadOnly key) ∨
        ((∃ e, w.heap.kind id = .array e) ∧ key = "length" ∧ ¬v.IsArrayLength) ∨
        w.heap.IsOverruled id key) := by
  have hset : w.heap.set? id key v = none ↔
      w.heap.isWritable id key = false ∨ (w.heap.object id).assigned? key v = none := by
    unfold Heap.set?
    cases w.heap.isWritable id key <;> simp
  rw [Heap.isWritable_eq_false_iff, Object.assigned?_eq_none_iff, or_assoc,
    or_comm (a := w.heap.IsOverruled id key)] at hset
  have hassign := Action.assign_eq id key v w
  cases hresult : w.heap.set? id key v with
  | none =>
    rw [hresult] at hassign
    exact ⟨false, w, hassign, fun _ => hset.1 hresult, fun _ => rfl⟩
  | some h' =>
    rw [hresult] at hassign
    have haccepted := mt hset.2 (hresult ▸ Option.some_ne_none h')
    exact ⟨true, _, hassign, fun hfalse => (nomatch hfalse), (absurd · haccepted)⟩

/-- The element 0 of an array cannot be assigned when its prototype has a read-only property of that
key, though the element is the nearest property, it is not read-only, and its key is not that of the
length. -/
theorem assignment_refused_overruled :
    let above := (Object.ofKind .ordinary).define "0" ⟨.str "above", false⟩
    let array : Object := ⟨.array (.ofList [.str "own"]), {}, some ⟨0⟩⟩
    let h : Heap := ((Heap.empty.add above).2.add array).2
    Action.assign ⟨1⟩ "0" .null ⟨h, []⟩ = .ok false ⟨h, []⟩ ∧ h.nearest? ⟨1⟩ "0" = some ⟨1⟩ ∧
      ¬((∃ o, h.nearest? ⟨1⟩ "0" = some o ∧ (h.object o).IsReadOnly "0") ∨
        (∃ e, h.kind ⟨1⟩ = .array e) ∧ "0" = "length" ∧ ¬Value.null.IsArrayLength) := by
  intro above array h
  have hnearest : h.nearest? ⟨1⟩ "0" = some ⟨1⟩ := by cbv
  have hsilent : (h.object ⟨1⟩).writable? "0" = none := by cbv
  refine ⟨by cbv, hnearest, ?_⟩
  rintro (⟨o, ho, hreadOnly⟩ | ⟨-, hlength, -⟩)
  · obtain rfl := Option.some.inj (hnearest.symm.trans ho)
    cases hsilent.symm.trans (Object.writable?_eq_false_iff.2 hreadOnly)
  · exact absurd hlength (by decide)

end ScriptOps
