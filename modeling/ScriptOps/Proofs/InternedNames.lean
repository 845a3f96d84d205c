import Mathlib
import ScriptOps.Interner

/-!
# Interned names identify strings

The hash of a string reads its first bytes only, so a shard holds many strings, and a name tells
them apart by their positions. `Shard.IsInverse` says that the two directions of a shard are inverse
to each other, and `Interner.Names` that an interner has names for exactly the strings of a set. A
call keeps both, and keeps every name that was given before. So two names are the same word exactly
if they are names of the same string.
-/

namespace ScriptOps

/-! ### Packing -/

namespace Name

variable {i p : Nat}

/-- A packed word is the shard and the position in it, as digits. -/
theorem toNat_raw_pack (hi : i < shardCount) (hp : p < shardCapacity) :
    (pack i p).raw.toNat = i * shardCapacity + p := by
  have hcount : shardCount = 16 := rfl
  have hcapacity : shardCapacity = 2 ^ 28 := rfl
  rw [pack, UInt32.toNat_ofNat', Nat.shiftLeft_eq]
  refine Nat.mod_eq_of_lt (show i * shardCapacity + p < 2 ^ 32 from ?_)
  rw [hcapacity]
  omega

/-- A name tells its shard. -/
theorem shard_pack (hi : i < shardCount) (hp : p < shardCapacity) : (pack i p).shard = i := by
  rw [shard, toNat_raw_pack hi hp, Nat.shiftRight_eq_div_pow]
  change (i * shardCapacity + p) / shardCapacity = i
  rw [Nat.mul_comm, Nat.mul_add_div (by decide), Nat.div_eq_of_lt hp, Nat.add_zero]

/-- A name tells its position. -/
theorem position_pack (hi : i < shardCount) (hp : p < shardCapacity) :
    (pack i p).position = p := by
  rw [position, toNat_raw_pack hi hp, Nat.mul_add_mod_self_right, Nat.mod_eq_of_lt hp]

end Name

/-! ### Shards -/

/-- The two directions of a shard are inverse to each other. -/
def Shard.IsInverse (shard : Shard) : Prop :=
  ∀ s p, shard.positions.get? s = some p ↔ shard.strings[p]? = some s

namespace Shard.IsInverse

variable {shard : Shard} {s : String}

/-- The shard without strings is in order. -/
theorem empty : IsInverse .empty := by
  intro s p
  simp [Shard.empty]

/-- A new string is put under the position at which it is put. -/
theorem push (h : shard.IsInverse) (hs : shard.positions.get? s = none) :
    (shard.push s).IsInverse := by
  intro s' p
  rw [Shard.push, Table.get?_insert, Array.getElem?_push]
  by_cases hsame : s' = s
  · subst hsame
    -- a string without a position is at no place of the shard
    have habsent : shard.strings[p]? ≠ some s' := fun hp => by
      rw [← h, hs] at hp
      nomatch hp
    by_cases hp : p = shard.strings.size
    · simp [hp]
    · simp [hp, habsent, Ne.symm hp]
  · rw [if_neg hsame, h]
    by_cases hp : p = shard.strings.size
    · simp [hp, Ne.symm hsame]
    · simp [hp]

/-- No string is at two positions. -/
theorem nodup (h : shard.IsInverse) : shard.strings.toList.Nodup := by
  rw [List.nodup_iff_getElem?_ne_getElem?]
  intro p q hlt hq hsame
  obtain ⟨s, hs⟩ : ∃ s, shard.strings[q]? = some s := ⟨_, Array.getElem?_eq_getElem hq⟩
  rw [Array.getElem?_toList, Array.getElem?_toList, hs] at hsame
  have hpositions := ((h s p).2 hsame).symm.trans ((h s q).2 hs)
  have := Option.some.inj hpositions
  omega

end Shard.IsInverse

/-! ### Interners -/

/-- The shards have room for the strings of a set. -/
def Fits (known : Finset String) : Prop :=
  ∀ i, (known.filter (shardOf · = i)).card ≤ shardCapacity

/-- Fewer strings fit where more do. -/
theorem Fits.mono {known known' : Finset String} (h : Fits known') (hsub : known ⊆ known') :
    Fits known :=
  fun i => (Finset.card_le_card (Finset.filter_subset_filter _ hsub)).trans (h i)

/-- They have room for few strings, whatever their hashes are. -/
theorem Fits.of_card_le {known : Finset String} (h : known.card ≤ shardCapacity) : Fits known :=
  fun _ => (Finset.card_filter_le _ _).trans h

namespace Interner

/-- The interner has names for exactly the strings of a set: each shard has those with its hash,
both directions of it agree, and the count is right. -/
structure Names (t : Interner) (known : Finset String) : Prop where
  inverse : ∀ i, (t.shards.get i).IsInverse
  mem_iff : ∀ i s, s ∈ (t.shards.get i).strings ↔ s ∈ known ∧ shardOf s = i
  size_eq : t.size = known.card

/-- Every name that an interner gave is a name in another one. -/
def Extends (t t' : Interner) : Prop :=
  ∀ s n, t.find? s = some n → t'.find? s = some n

/-- What an interner knows is kept from one extension to the next. -/
theorem Extends.trans {t t' t'' : Interner} (h : t.Extends t') (h' : t'.Extends t'') :
    t.Extends t'' :=
  fun s n hn => h' s n (h s n hn)

/-- A string is unknown exactly if its shard has no position for it. -/
theorem find?_eq_none {t : Interner} {s : String} :
    t.find? s = none ↔ (t.shards.get (shardOf s)).positions.get? s = none :=
  Option.map_eq_none_iff

/-- A new string changes its shard. -/
theorem shards_push (t : Interner) (s : String) (i : Fin shardCount) :
    (t.push s).shards.get i =
      if i = shardOf s then (t.shards.get i).push s else t.shards.get i := by
  change (t.shards.set (shardOf s) ((t.shards.get (shardOf s)).push s))[i.val] = _
  rw [Vector.getElem_set]
  by_cases hi : i = shardOf s
  · rw [if_pos (congrArg Fin.val hi.symm), if_pos hi, hi]
  · rw [if_neg fun h => hi (Fin.ext h.symm), if_neg hi]
    rfl

/-- A string that was added is found at the end of its shard. -/
theorem find?_push (t : Interner) (s : String) :
    (t.push s).find? s =
      some (.pack (shardOf s) (t.shards.get (shardOf s)).strings.size) := by
  rw [find?, shards_push, if_pos rfl, Shard.push, Table.get?_insert_self]
  rfl

/-- Adding a string that is new keeps all earlier ones. -/
theorem extends_push {t : Interner} {s : String} (hs : t.find? s = none) :
    t.Extends (t.push s) := by
  intro s' n hn
  have hne : s' ≠ s := fun h => by
    rw [h, hs] at hn
    nomatch hn
  rw [find?] at hn ⊢
  rw [shards_push]
  split
  · rw [Shard.push, Table.get?_insert_of_ne _ hne, hn]
  · exact hn

namespace Names

variable {t t' : Interner} {known : Finset String} {s : String} {n : Name}

/-- A shard has as many strings as there are with its hash. -/
theorem size_strings (h : t.Names known) (i : Fin shardCount) :
    (t.shards.get i).strings.size = (known.filter (shardOf · = i)).card := by
  have hset : (t.shards.get i).strings.toList.toFinset = known.filter (shardOf · = i) := by
    ext s
    rw [List.mem_toFinset, Array.mem_toList_iff, h.mem_iff, Finset.mem_filter]
  rw [← hset, List.toFinset_card_of_nodup (h.inverse i).nodup, Array.length_toList]

/-- A string that is not found is none of the known ones. -/
theorem mem_of_find?_eq_none (h : t.Names known) (hs : t.find? s = none) : s ∉ known := by
  intro hmem
  obtain ⟨p, hp⟩ := Array.mem_iff_getElem?.1 ((h.mem_iff (shardOf s) s).2 ⟨hmem, rfl⟩)
  rw [find?_eq_none, ← Option.isNone_iff_eq_none] at hs
  rw [← h.inverse] at hp
  simp [hp] at hs

/-- A name is looked up by its two parts. -/
theorem lookup?_of_find? (h : t.Names known) (hfits : Fits known) (hn : t.find? s = some n) :
    t.lookup? n = some s := by
  obtain ⟨p, hp, rfl⟩ := Option.map_eq_some_iff.1 hn
  have hstring := (h.inverse _ s p).1 hp
  have hlt : p < shardCapacity := by
    have hsize := (Array.getElem?_eq_some_iff.1 hstring).1
    rw [h.size_strings] at hsize
    exact hsize.trans_le (hfits _)
  rw [lookup?, Name.shard_pack (shardOf s).isLt hlt, Name.position_pack (shardOf s).isLt hlt,
    Vector.getElem?_eq_getElem (shardOf s).isLt]
  exact hstring

/-- A string that is added is known from then on. -/
theorem push (h : t.Names known) (hs : t.find? s = none) :
    (t.push s).Names (insert s known) where
  inverse i := by
    rw [shards_push]
    split
    · next hi =>
      subst hi
      exact (h.inverse _).push (find?_eq_none.1 hs)
    · exact h.inverse i
  mem_iff i s' := by
    rw [shards_push]
    split
    · next hi =>
      rw [Shard.push, Array.mem_push, h.mem_iff, Finset.mem_insert]
      constructor
      · rintro (⟨hmem, hi'⟩ | rfl)
        · exact ⟨.inr hmem, hi'⟩
        · exact ⟨.inl rfl, hi.symm⟩
      · rintro ⟨rfl | hmem, hi'⟩
        · exact .inr rfl
        · exact .inl ⟨hmem, hi'⟩
    · next hi =>
      rw [h.mem_iff, Finset.mem_insert]
      constructor
      · exact fun ⟨hmem, hi'⟩ => ⟨.inr hmem, hi'⟩
      · rintro ⟨rfl | hmem, hi'⟩
        · exact absurd hi'.symm hi
        · exact ⟨hmem, hi'⟩
  size_eq := by
    rw [Finset.card_insert_of_notMem (h.mem_of_find?_eq_none hs), ← h.size_eq]
    rfl

/-- A call succeeds if there is room, names the string and keeps the other names. -/
theorem intern? (h : t.Names known) (hfits : Fits (insert s known)) :
    ∃ n t', t.intern? s = some (n, t') ∧ t'.Names (insert s known) ∧ t'.find? s = some n ∧
      t.Extends t' := by
  unfold Interner.intern?
  cases hs : t.find? s with
  | some n =>
    have hmem : s ∈ known := by
      obtain ⟨p, hp, -⟩ := Option.map_eq_some_iff.1 hs
      exact ((h.mem_iff _ s).1 (Array.mem_of_getElem? ((h.inverse _ s p).1 hp))).1
    exact ⟨n, t, rfl, by rwa [Finset.insert_eq_of_mem hmem], hs, fun _ _ hn => hn⟩
  | none =>
    have hlt : (t.shards.get (shardOf s)).strings.size < shardCapacity := by
      have hroom := hfits (shardOf s)
      rw [Finset.filter_insert, if_pos rfl, Finset.card_insert_of_notMem
        fun hmem => h.mem_of_find?_eq_none hs (Finset.mem_filter.1 hmem).1] at hroom
      rw [h.size_strings]
      exact hroom
    dsimp only
    rw [if_pos hlt]
    exact ⟨_, _, rfl, h.push hs, find?_push t s, extends_push hs⟩

end Names

/-! ### Runs of calls -/

/-- Interns strings one after the other, and tells their names. -/
def internAll? (t : Interner) : List String → Option (List Name × Interner)
  | [] => some ([], t)
  | s :: rest => do
    let (n, t) ← t.intern? s
    let (names, t) ← t.internAll? rest
    return (n :: names, t)

/-- Strings are interned part by part, with what was interned before in place. -/
theorem internAll?_append (t : Interner) (before after : List String) :
    t.internAll? (before ++ after) = (do
      let (names, t) ← t.internAll? before
      let (names', t) ← t.internAll? after
      return (names ++ names', t)) := by
  induction before generalizing t with
  | nil => simp [internAll?]
  | cons s rest ih => simp [internAll?, ih, Option.bind_assoc]

/-- A run of calls succeeds if there is room, names all its strings and keeps the names that were
given before it. -/
theorem Names.internAll? {t : Interner} {known : Finset String} (h : t.Names known)
    (calls : List String) (hfits : Fits (known ∪ calls.toFinset)) :
    ∃ names t', t.internAll? calls = some (names, t') ∧ t'.Names (known ∪ calls.toFinset) ∧
      List.Forall₂ (fun s n => t'.find? s = some n) calls names ∧ t.Extends t' := by
  induction calls generalizing t known with
  | nil => exact ⟨[], t, rfl, by simpa using h, .nil, fun _ _ hn => hn⟩
  | cons s rest ih =>
    have hunion : known ∪ (s :: rest).toFinset = insert s known ∪ rest.toFinset := by
      rw [List.toFinset_cons, Finset.union_insert, Finset.insert_union]
    rw [hunion] at hfits ⊢
    obtain ⟨n, t₁, hcall, hnames, hfind, hextends⟩ :=
      h.intern? (hfits.mono Finset.subset_union_left)
    obtain ⟨names, t₂, hcalls, hnames', hfinds, hextends'⟩ := ih hnames hfits
    refine ⟨n :: names, t₂, ?_, hnames', .cons (hextends' s n hfind) hfinds,
      hextends.trans hextends'⟩
    simp [Interner.internAll?, hcall, hcalls]

/-! ### The beginning -/

/-- The strings that have a name from the start. -/
def preinterned : Finset String :=
  insert "" wellKnown.toFinset

/-- The interner in which no string has a name. -/
def blank : Interner :=
  ⟨.replicate shardCount .empty, 0⟩

/-- The interner without strings names none. -/
theorem names_blank : blank.Names ∅ := by
  have hget (i : Fin shardCount) : blank.shards.get i = .empty := Vector.getElem_replicate i.isLt
  constructor
  · intro i
    rw [hget]
    exact .empty
  · intro i s
    simp [hget, Shard.empty]
  · rfl

theorem start_eq : start = blank.push "" := rfl

/-- An interner begins with the empty string. -/
theorem names_start : start.Names {""} := by
  have hpush : (blank.push "").Names (insert "" ∅) := names_blank.push rfl
  rwa [insert_empty_eq, ← start_eq] at hpush

/-- The empty string has the empty name. -/
theorem find?_start : start.find? "" = some .empty := rfl

/-- The run that the interner begins with. -/
theorem foldl_intern {t t' : Interner} {calls : List String} {names : List Name}
    (h : t.internAll? calls = some (names, t')) :
    calls.foldl (fun t s => (t.intern s).2) t = t' := by
  induction calls generalizing t names with
  | nil => exact (Prod.mk.inj (Option.some.inj h)).2
  | cons s rest ih =>
    obtain ⟨⟨n, t₁⟩, hcall, hrest⟩ := Option.bind_eq_some_iff.1 h
    obtain ⟨⟨names', t₂⟩, hcalls, hresult⟩ := Option.bind_eq_some_iff.1 hrest
    obtain rfl : t₂ = t' := (Prod.mk.inj (Option.some.inj hresult)).2
    rw [List.foldl_cons, intern, hcall]
    exact ih hcalls

/-- The names that come with the interner are known, and they extend it. -/
theorem names_initial : initial.Names preinterned ∧ start.Extends initial := by
  have hfits : Fits ({""} ∪ wellKnown.toFinset) :=
    .of_card_le ((Finset.card_union_le _ _).trans (by decide))
  obtain ⟨names, t, hcalls, hnames, -, hextends⟩ := names_start.internAll? wellKnown hfits
  rw [initial, foldl_intern hcalls]
  exact ⟨hnames, hextends⟩

/-- Interned names identify strings. While the shards have room, every call gives a name; looking
the name up gives the string, at once and after all later calls; two names are the same word exactly
if their strings are the same; the empty name is that of the empty string; and the size counts the
strings. -/
theorem interned_names_identify (calls : List String)
    (hroom : Fits (preinterned ∪ calls.toFinset)) :
    ∃ names t, initial.internAll? calls = some (names, t) ∧
      (∀ before after, calls = before ++ after → ∃ names' t',
        initial.internAll? before = some (names', t') ∧ names' <+: names ∧
          List.Forall₂ (fun s n => t'.lookup? n = some s) before names') ∧
      (∀ x ∈ calls.zip names, ∀ y ∈ calls.zip names, x.2.raw = y.2.raw ↔ x.1 = y.1) ∧
      (∀ x ∈ calls.zip names, x.2 = .empty ↔ x.1 = "") ∧ t.lookup? .empty = some "" ∧
      t.size = (preinterned ∪ calls.toFinset).card := by
  obtain ⟨hinitial, hstart⟩ := names_initial
  obtain ⟨names, t, hcalls, hnames, hfinds, hextends⟩ := hinitial.internAll? calls hroom
  have hzip {s : String} {n : Name} (hx : (s, n) ∈ calls.zip names) : t.find? s = some n :=
    (List.forall₂_iff_zip.1 hfinds).2 hx
  have hempty : t.find? "" = some .empty := hextends _ _ (hstart _ _ find?_start)
  -- a name is found for one string only, since looking it up gives the string
  have hiff {s s' : String} {n n' : Name} (hn : t.find? s = some n) (hn' : t.find? s' = some n') :
      n = n' ↔ s = s' := by
    constructor
    · rintro rfl
      have hlookup := hnames.lookup?_of_find? hroom hn
      rw [hnames.lookup?_of_find? hroom hn'] at hlookup
      exact (Option.some.inj hlookup).symm
    · rintro rfl
      exact Option.some.inj (hn.symm.trans hn')
  refine ⟨names, t, hcalls, ?_, ?_, ?_, hnames.lookup?_of_find? hroom hempty, hnames.size_eq⟩
  · rintro before after rfl
    have hfits : Fits (preinterned ∪ before.toFinset) := by
      refine hroom.mono (Finset.union_subset_union_right ?_)
      rw [List.toFinset_append]
      exact Finset.subset_union_left
    obtain ⟨names', t', hbefore, hnames', hfinds', -⟩ := hinitial.internAll? before hfits
    refine ⟨names', t', hbefore, ?_, hfinds'.imp fun s n hn => hnames'.lookup?_of_find? hfits hn⟩
    rw [internAll?_append, hbefore] at hcalls
    obtain ⟨⟨later, t''⟩, -, hresult⟩ :=
      Option.bind_eq_some_iff.1 ((Option.bind_some _ _).symm.trans hcalls)
    exact ⟨later, (Prod.mk.inj (Option.some.inj hresult)).1⟩
  · rintro ⟨s, n⟩ hx ⟨s', n'⟩ hy
    rw [← hiff (hzip hx) (hzip hy), Name.mk.injEq]
  · rintro ⟨s, n⟩ hx
    exact hiff (hzip hx) hempty

/-- The hash reads the same eight bytes of the two long strings, so they fall into one shard, and
they get two names. -/
theorem interned_names_identify_collision :
    let calls := ["variable1", "variable2", "", "variable1"]
    shardOf "variable1" = shardOf "variable2" ∧
      ∃ names t, initial.internAll? calls = some (names, t) ∧
        (∀ x ∈ calls.zip names, ∀ y ∈ calls.zip names, x.2.raw = y.2.raw ↔ x.1 = y.1) ∧
          names.map Name.text = ["Name(12:2)", "Name(12:3)", "Name(0:0)", "Name(12:2)"] ∧
            t.size = 12 := by
  intro calls
  have hfits : Fits (preinterned ∪ calls.toFinset) := .of_card_le (by decide)
  obtain ⟨names, t, hcalls, -, hnames, -, -, hsize⟩ := interned_names_identify calls hfits
  have htexts : (initial.internAll? calls).map (·.1.map Name.text) =
      some ["Name(12:2)", "Name(12:3)", "Name(0:0)", "Name(12:2)"] := by decide
  rw [hcalls] at htexts
  exact ⟨by decide, names, t, hcalls, hnames, Option.some.inj htexts, hsize.trans (by decide)⟩

end Interner

end ScriptOps
