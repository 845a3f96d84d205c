import Mathlib
import ScriptOps.Coercion
import ScriptOps.Proofs.Agreement

/-!
# The text of an array

The text of an array is the texts of its slots, separated by commas. A slot is read when its turn
comes, so the callbacks of earlier conversions may have changed it; `Coercion.SlotTexts` says which
texts the slots give, one after the other, and which world they lead through.

The joined text may have `Coercion.maxTextLength` bytes. The loop compares what it has so far after
every slot, and the texts only grow, so it fails exactly if the whole is too long. A first
comparison refuses arrays of more slots than that without a look at them. It is meant for arrays
whose commas alone are too many, but it also refuses the array of one slot more, whose commas are
just not too many: if all its slots are empty, its text would fit.
-/

namespace ScriptOps

/-! ### Texts with commas -/

/-- A separator of one byte stands between any two texts. -/
theorem utf8ByteSize_intercalate_comma (t : String) (texts : List String) :
    (",".intercalate (t :: texts)).utf8ByteSize =
      ((t :: texts).map String.utf8ByteSize).sum + texts.length := by
  induction texts generalizing t with
  | nil => simp
  | cons u rest ih =>
    have hcomma : ",".utf8ByteSize = 1 := rfl
    rw [String.intercalate_cons_cons, String.utf8ByteSize_append, String.utf8ByteSize_append, ih,
      hcomma, List.map_cons (f := String.utf8ByteSize) (a := t), List.sum_cons, List.length_cons]
    omega

/-- Empty texts, one more than `n`, have `n` separators between them. -/
theorem utf8ByteSize_commas (n : Nat) :
    (",".intercalate (List.replicate (n + 1) "")).utf8ByteSize = n := by
  rw [List.replicate_succ, utf8ByteSize_intercalate_comma]
  simp

/-- The first text with the next one is a longer first text. -/
theorem intercalate_append_comma (t u : String) (texts : List String) :
    ",".intercalate (t :: u :: texts) = ",".intercalate ((t ++ "," ++ u) :: texts) := by
  rw [String.intercalate_cons_cons, String.intercalate_cons_append]

/-- A text is not longer than the texts joined that begin with it. -/
theorem utf8ByteSize_le_intercalate_comma (t : String) (texts : List String) :
    t.utf8ByteSize ≤ (",".intercalate (t :: texts)).utf8ByteSize := by
  rw [utf8ByteSize_intercalate_comma, List.map_cons, List.sum_cons]
  omega

/-! ### The texts of the slots -/

/-- The element in a slot of an array, and `none` for a hole. -/
def Heap.element? (h : Heap) (array : ObjectId) (index : Nat) : Option Value :=
  (h.kind array).elements?.bind (·.get? index)

namespace Coercion

/-- What a slot contributes in a world, and the world that is left. -/
inductive SlotText (host : Host) (array : ObjectId) (index : Nat) (w : World) :
    String → World → Prop where
  | empty : (∀ v, w.heap.element? array index = some v → v.isNullish) →
      SlotText host array index w "" w
  | element {v : Value} {t : String} {w' : World} : w.heap.element? array index = some v →
      v.isNullish = false → host.toText v w = .ok t w' → SlotText host array index w t w'

/-- The slots from an index on give these texts, one after the other. -/
inductive SlotTexts (host : Host) (array : ObjectId) :
    Nat → World → List String → World → Prop where
  | done (index : Nat) (w : World) : SlotTexts host array index w [] w
  | next {index : Nat} {w w' w'' : World} {t : String} {texts : List String} :
      SlotText host array index w t w' → SlotTexts host array (index + 1) w' texts w'' →
        SlotTexts host array index w (t :: texts) w''

variable {host : Host} {array : ObjectId} {index : Nat} {w w' : World} {t : String}

/-- One slot of the loop. -/
theorem joinFrom_succ (hslot : SlotText host array index w t w') (count : Nat) (joined : String) :
    let next := (if index = 0 then joined else joined ++ ",") ++ t
    joinFrom host.toText array (count + 1) index joined w =
      if maxTextLength < next.utf8ByteSize then .error (.ofCause .stringTooLong) w'
      else joinFrom host.toText array count (index + 1) next w' := by
  intro next
  have hheap : (Action.heap : Action Heap) w = .ok w.heap w := rfl
  have hcheck : (if next.utf8ByteSize > maxTextLength then Action.fail .stringTooLong
      else joinFrom host.toText array count (index + 1) next) w' =
        if maxTextLength < next.utf8ByteSize then .error (.ofCause .stringTooLong) w'
        else joinFrom host.toText array count (index + 1) next w' := by
    split <;> rfl
  rw [← hcheck]
  refine (bind_of_ok hheap).trans ?_
  dsimp only
  cases hslot with
  | empty hempty =>
    have hnone : ((w.heap.kind array).elements?.bind (·.get? index)).filter (!·.isNullish) =
        none := by
      refine Option.filter_eq_none_iff.2 fun v hv => ?_
      simp [hempty v hv]
    have hnext : next = if index = 0 then joined else joined ++ "," := String.append_empty
    rw [hnone, hnext]
    rfl
  | @element v _ _ hget hv htext =>
    have hsome : ((w.heap.kind array).elements?.bind (·.get? index)).filter (!·.isNullish) =
        some v := Option.filter_eq_some_iff.2 ⟨hget, by simp [hv]⟩
    rw [hsome]
    exact bind_of_ok htext

/-- What joining texts comes to: the whole, if it fits, and otherwise a failure in the world that
some of the slots led to. -/
inductive Joins (host : Host) (array : ObjectId) (index : Nat) (w : World) (texts : List String)
    (w' : World) (whole : String) : EStateM.Result Error World String → Prop where
  | fits : whole.utf8ByteSize ≤ maxTextLength →
      Joins host array index w texts w' whole (.ok whole w')
  | tooLong {k : Nat} {w'' : World} : maxTextLength < whole.utf8ByteSize →
      SlotTexts host array index w (texts.take k) w'' →
        Joins host array index w texts w' whole (.error (.ofCause .stringTooLong) w'')

/-- One slot before the others. -/
theorem Joins.cons {w'' : World} {texts : List String} {whole : String}
    {run : EStateM.Result Error World String} (hslot : SlotText host array index w t w')
    (h : Joins host array (index + 1) w' texts w'' whole run) :
    Joins host array index w (t :: texts) w'' whole run := by
  cases h with
  | fits hsize => exact .fits hsize
  | @tooLong k _ hsize hslots => exact .tooLong (k := k + 1) hsize (.next hslot hslots)

/-- The whole is too long already with this slot, which is the last one that is looked at. -/
theorem Joins.stop {w'' : World} {texts : List String} {whole : String}
    (hslot : SlotText host array index w t w') (hsize : maxTextLength < whole.utf8ByteSize) :
    Joins host array index w (t :: texts) w'' whole (.error (.ofCause .stringTooLong) w') :=
  .tooLong (k := 1) hsize (.next hslot (.done ..))

/-- The loop past the first slot. -/
theorem joins_joinFrom {texts : List String} (hindex : index ≠ 0)
    (htexts : SlotTexts host array index w texts w') {joined : String}
    (hjoined : joined.utf8ByteSize ≤ maxTextLength) :
    Joins host array index w texts w' (",".intercalate (joined :: texts))
      (joinFrom host.toText array texts.length index joined w) := by
  induction htexts generalizing joined with
  | done index w =>
    rw [String.intercalate_singleton]
    exact .fits hjoined
  | @next index _ _ _ t rest hslot hrest ih =>
    have hrun := joinFrom_succ hslot rest.length joined
    simp only [if_neg hindex] at hrun
    have hle := utf8ByteSize_le_intercalate_comma (joined ++ "," ++ t) rest
    rw [intercalate_append_comma, List.length_cons, hrun]
    split
    · next hlong => exact .stop hslot (Nat.lt_of_lt_of_le hlong hle)
    · next hshort => exact .cons hslot (ih (Nat.succ_ne_zero index) (Nat.le_of_not_lt hshort))

/-- The whole loop. -/
theorem joins_joinFrom_zero {texts : List String} (htexts : SlotTexts host array 0 w texts w') :
    Joins host array 0 w texts w' (",".intercalate texts)
      (joinFrom host.toText array texts.length 0 "" w) := by
  cases htexts with
  | done => exact .fits (Nat.zero_le _)
  | @next _ _ _ _ t rest hslot hrest =>
    have hrun := joinFrom_succ hslot rest.length ""
    simp only [if_true, String.empty_append] at hrun
    have hle := utf8ByteSize_le_intercalate_comma t rest
    rw [List.length_cons, hrun]
    split
    · next hlong => exact .stop hslot (Nat.lt_of_lt_of_le hlong hle)
    · next hshort =>
      exact .cons hslot (joins_joinFrom Nat.one_ne_zero hrest (Nat.le_of_not_lt hshort))

end Coercion

/-! ### Arrays without a method of their own -/

/-- The host with room for one more level of nested conversions. -/
def Host.deeper (host : Host) : Host :=
  { host with depth := host.depth + 1 }

/-- How deep a conversion may nest is told apart from the host. -/
theorem Coercion.objectPrimitive_deeper (host : Host) (depth : Nat) (hint : Hint) (id : ObjectId) :
    objectPrimitive host.deeper depth hint id = objectPrimitive host depth hint id := by
  induction depth generalizing hint id with
  | zero => rfl
  | succ depth ih =>
    unfold objectPrimitive
    simp only [ih]
    rfl

section WithoutMethod

variable {host : Host} {id : ObjectId} {e : Elements} {w : World}

/-- The method that no object on the chain has is to join the elements. -/
theorem Coercion.runMethod?_array (text : Value → Action String)
    (hkind : w.heap.kind id = .array e) (hmethod : w.heap.has id "toString" = false) :
    runMethod? host text id .toString w =
      (some <$> (Value.str <$> join text id e) : Action (Option Value)) w := by
  have hheap : (Action.heap : Action Heap) w = .ok w.heap w := rfl
  have hbuiltin : builtinMethod text id .toString w = (Value.str <$> join text id e) w := by
    refine (bind_of_ok hheap).trans ?_
    rw [hkind]
    rfl
  refine (bind_of_ok hheap).trans ?_
  rw [if_neg (by rw [ConversionMethod.key, hmethod]; exact Bool.false_ne_true), map_eq_pure_bind,
    map_eq_pure_bind]
  exact bind_of_eq hbuiltin

/-- An array without a method `toString` on its chain is joined. -/
theorem Host.toText_array (hkind : w.heap.kind id = .array e)
    (hmethod : w.heap.has id "toString" = false) :
    host.deeper.toText (.object id) w = Coercion.join host.toText id e w := by
  have hheap : (Action.heap : Action Heap) w = .ok w.heap w := rfl
  have hconvert : Coercion.objectPrimitive host.deeper (host.depth + 1) .string id w =
      Coercion.firstPrimitive (Coercion.runMethod? host.deeper host.toText id)
        [.toString, .valueOf] w := by
    refine (bind_of_ok hheap).trans ?_
    rw [hkind]
    refine congrArg (fun text => Coercion.firstPrimitive (Coercion.runMethod? host.deeper text id)
      [.toString, .valueOf] w) (funext fun v => ?_)
    -- the array converts one level deeper than this host, so its elements convert with this host
    cases v with
    | primitive p => rfl
    | object element =>
      simp only [Coercion.objectPrimitive_deeper]
      rfl
  have hrun : Coercion.runMethod? host.deeper host.toText id .toString w =
      (some <$> (Value.str <$> Coercion.join host.toText id e) : Action (Option Value)) w :=
    Coercion.runMethod?_array host.toText hkind hmethod
  cases hjoin : Coercion.join host.toText id e w with
  | ok t w' =>
    have hfirst : Coercion.runMethod? host.deeper host.toText id .toString w =
        .ok (some (.str t)) w' :=
      hrun.trans (map_of_ok some (map_of_ok Value.str hjoin))
    exact bind_of_ok (hconvert.trans (bind_of_ok hfirst))
  | error err w' =>
    have hfirst : Coercion.runMethod? host.deeper host.toText id .toString w = .error err w' :=
      hrun.trans (map_of_error some (map_of_error Value.str hjoin))
    exact bind_of_error (hconvert.trans (bind_of_error hfirst))

namespace Coercion

/-- The text of a slot that holds no object. -/
def plainText (e : Elements) (index : Nat) : String :=
  match e.get? index with
  | some (.primitive p) => if p.isNullish then "" else p.toText
  | _ => ""

/-- Where no slot holds an object, the slots have their plain texts, and nothing is changed. -/
theorem slotTexts_plainText (hkind : w.heap.kind id = .array e)
    (hplain : ∀ index element, e.get? index ≠ some (.object element)) (count index : Nat) :
    SlotTexts host id index w ((List.range' index count).map (plainText e)) w := by
  induction count generalizing index with
  | zero => exact .done ..
  | succ count ih =>
    have hslot : w.heap.element? id index = e.get? index := by
      rw [Heap.element?, hkind]
      rfl
    refine .next ?_ (ih (index + 1))
    rw [plainText]
    cases hget : e.get? index with
    | none => exact .empty fun v hv => by simp [hslot, hget] at hv
    | some v =>
      cases v with
      | object element => exact absurd hget (hplain index element)
      | primitive p =>
        dsimp only
        split
        · next hnullish =>
          refine .empty fun v hv => ?_
          obtain rfl := Option.some.inj (hget.symm.trans (hslot.symm.trans hv))
          exact hnullish
        · next hnullish =>
          exact .element (hslot.trans hget) (eq_false_of_ne_true hnullish) rfl

/-- Too many slots make a text too long, unless there is one slot too many and all are empty. -/
theorem empty_of_too_many_slots {texts : List String} (hlength : maxTextLength < texts.length)
    (hsize : (",".intercalate texts).utf8ByteSize ≤ maxTextLength) :
    texts.length = maxTextLength + 1 ∧ ∀ t ∈ texts, t = "" := by
  cases texts with
  | nil => exact absurd hlength (Nat.not_lt_zero _)
  | cons t rest =>
    rw [utf8ByteSize_intercalate_comma] at hsize
    rw [List.length_cons] at hlength ⊢
    have hzero : ((t :: rest).map String.utf8ByteSize).sum = 0 := by omega
    refine ⟨by omega, fun u hu => ?_⟩
    rw [List.sum_eq_zero_iff_forall_eq_nat] at hzero
    exact String.utf8ByteSize_eq_zero_iff.1 (hzero _ (List.mem_map_of_mem hu))

end Coercion

open Coercion

/-- The text of an array is the texts of its slots with commas between them, holes and nullish
elements being empty, if that has at most `maxTextLength` bytes. If it has more the conversion fails
with a `RangeError`, at the slot with which the text is too long or before the first one. There is
one exception: an array of `maxTextLength + 1` slots, all empty, is refused as well. -/
theorem array_text_joined {texts : List String} {w' : World} (hkind : w.heap.kind id = .array e)
    (hmethod : w.heap.has id "toString" = false) (hlength : texts.length = e.length)
    (htexts : SlotTexts host id 0 w texts w') :
    let whole := ",".intercalate texts
    let refused := maxTextLength < whole.utf8ByteSize ∨
      e.length = maxTextLength + 1 ∧ ∀ t ∈ texts, t = "";
    (¬refused → host.deeper.toText (.object id) w = .ok whole w') ∧
    (refused → ∃ k w'', SlotTexts host id 0 w (texts.take k) w'' ∧
      host.deeper.toText (.object id) w = .error (.ofCause .stringTooLong) w'') ∧
    ∀ h, Cause.stringTooLong.text h = "RangeError: Invalid string length" := by
  intro whole refused
  rw [Host.toText_array hkind hmethod, join]
  -- the count of slots is checked before any slot is converted
  by_cases hcount : e.length > maxTextLength
  · rw [if_pos hcount]
    refine ⟨fun hfits => ?_, fun _ => ⟨0, w, .done .., rfl⟩, fun _ => rfl⟩
    obtain ⟨hlong, hslots⟩ := not_or.1 hfits
    have hempty := empty_of_too_many_slots (hlength.symm ▸ hcount) (Nat.le_of_not_lt hlong)
    exact absurd (hlength ▸ hempty) hslots
  · rw [if_neg hcount, ← hlength]
    have hjoins := joins_joinFrom_zero htexts
    generalize joinFrom host.toText id texts.length 0 "" w = run at hjoins
    cases hjoins with
    | fits hsize =>
      refine ⟨fun _ => rfl, ?_, fun _ => rfl⟩
      rintro (hlong | ⟨hmany, -⟩)
      · exact absurd hsize (Nat.not_le_of_lt hlong)
      · omega
    | @tooLong k w'' hsize hslots =>
      exact ⟨fun hfits => absurd (.inl hsize) hfits, fun _ => ⟨k, w'', hslots, rfl⟩, fun _ => rfl⟩

end WithoutMethod

open Coercion Primitive in
/-- An array of a string, null, another array and a hole. -/
theorem array_text_joined_nested :
    let e : Elements := (Elements.ofList [(str "x" : Value), .null, .object ⟨0⟩]).setLength 4
    let h : Heap := ((Heap.empty.create (.array (.ofList [(int 1 : Value), int 2]))).2.create
      (.array e)).2
    let host : Host := ⟨fun _ _ => .answer .undefined, fun _ => false, fun _ => none, 1⟩
    h.kind ⟨1⟩ = .array e ∧ h.has ⟨1⟩ "toString" = false ∧
      SlotTexts host ⟨1⟩ 0 ⟨h, []⟩ ["x", "", "1,2", ""] ⟨h, []⟩ ∧
      host.deeper.toText (.object ⟨1⟩) ⟨h, []⟩ = .ok "x,,1,2," ⟨h, []⟩ := by
  intro e h host
  have hkind : h.kind ⟨1⟩ = .array e := rfl
  have hmethod : h.has ⟨1⟩ "toString" = false := by cbv
  have hinner : host.toText (.object ⟨0⟩) ⟨h, []⟩ = .ok "1,2" ⟨h, []⟩ := by cbv
  have htexts : SlotTexts host ⟨1⟩ 0 ⟨h, []⟩ ["x", "", "1,2", ""] ⟨h, []⟩ := by
    refine .next (.element rfl rfl rfl) (.next (.empty ?_) (.next (.element rfl rfl hinner)
      (.next (.empty ?_) (.done ..))))
    · rintro v ⟨⟩
      rfl
    · rintro v ⟨⟩
  refine ⟨hkind, hmethod, htexts, (array_text_joined hkind hmethod rfl htexts).1 ?_⟩
  decide

/-- The only object of a heap, an array, has no method `toString`. -/
theorem has_toString_of_first_array (e : Elements) :
    (Heap.empty.create (.array e)).2.has ⟨0⟩ "toString" = false := by
  cbv

open Coercion in
/-- An array of `maxTextLength + 1` holes has a text of `maxTextLength` commas, which is refused. -/
theorem array_text_refused_though_short :
    let e : Elements := (Elements.ofList []).setLength (maxTextLength + 1)
    let w : World := ⟨(Heap.empty.create (.array e)).2, []⟩
    let host : Host := ⟨fun _ _ => .answer .undefined, fun _ => false, fun _ => none, 0⟩
    let texts : List String := List.replicate (maxTextLength + 1) "";
    w.heap.kind ⟨0⟩ = .array e ∧ w.heap.has ⟨0⟩ "toString" = false ∧
      SlotTexts host ⟨0⟩ 0 w texts w ∧
      (",".intercalate texts).utf8ByteSize = maxTextLength ∧
      host.deeper.toText (.object ⟨0⟩) w = .error (.ofCause .stringTooLong) w := by
  intro e w host texts
  have hkind : w.heap.kind ⟨0⟩ = .array e := rfl
  have hmethod : w.heap.has ⟨0⟩ "toString" = false := has_toString_of_first_array e
  have hhole (index : Nat) : e.get? index = none := by
    rw [Elements.get?_setLength]
    split <;> rfl
  have htexts : texts = (List.range' 0 (maxTextLength + 1)).map (plainText e) := by
    refine (List.eq_replicate_iff.2 ⟨?_, fun t ht => ?_⟩).symm
    · rw [List.length_map, List.length_range']
    · obtain ⟨index, -, rfl⟩ := List.mem_map.1 ht
      rw [plainText, hhole]
  refine ⟨hkind, hmethod, ?_, ?_, ?_⟩
  · rw [htexts]
    refine slotTexts_plainText hkind (fun index element => ?_) _ _
    rw [hhole]
    rintro ⟨⟩
  · exact utf8ByteSize_commas maxTextLength
  · rw [Host.toText_array hkind hmethod, join]
    exact congrFun (if_pos (Nat.lt_succ_self maxTextLength)) w

end ScriptOps
