import ScriptOps.Table

/-!
# Interned names

An interner gives each string a 32-bit name. The strings are dealt to sixteen shards by a hash of
their first bytes. A shard keeps the position of each of its strings and the string at each
position; a name packs the shard and the position of the string within it.
-/

namespace ScriptOps

/-- The number of shards. -/
def shardCount : Nat := 16

/-- The bits of a name that hold the position within the shard. -/
def positionBits : Nat := 28

/-- The number of strings that a shard has room for. -/
def shardCapacity : Nat := 1 <<< positionBits

/-- A packed name. -/
structure Name where
  /-- The packed word. -/
  raw : UInt32
deriving DecidableEq, Inhabited

namespace Name

/-- The name of the string at a position of a shard. -/
def pack (shard position : Nat) : Name :=
  ⟨UInt32.ofNat ((shard <<< positionBits) + position)⟩

/-- The shard of a name. -/
def shard (n : Name) : Nat :=
  n.raw.toNat >>> positionBits

/-- The position of a name within its shard. -/
def position (n : Name) : Nat :=
  n.raw.toNat % shardCapacity

/-- The name of the empty string. -/
def empty : Name := ⟨0⟩

/-- The two parts of a name. -/
def text (n : Name) : String :=
  "Name(" ++ toString n.shard ++ ":" ++ toString n.position ++ ")"

end Name

/-- The shard of a string, from its first eight bytes. -/
def shardOf (s : String) : Fin shardCount :=
  let hash := (s.toUTF8.data.toList.take 8).foldl (fun h b => h * 31 + b.toUInt32) (0 : UInt32)
  ⟨hash.toNat % shardCount, Nat.mod_lt _ (by decide)⟩

/-- The strings of a shard, in both directions. -/
structure Shard where
  /-- The position of each string. -/
  positions : Table String Nat
  /-- The string at each position. -/
  strings : Array String
deriving Inhabited

namespace Shard

/-- The shard without strings. -/
def empty : Shard := ⟨∅, #[]⟩

/-- Puts a new string at the next position. -/
def push (shard : Shard) (s : String) : Shard :=
  ⟨shard.positions.insert s shard.strings.size, shard.strings.push s⟩

end Shard

/-- The strings that have a name, by shards. -/
structure Interner where
  /-- The shards. -/
  shards : Vector Shard shardCount
  /-- The number of strings that have a name. -/
  size : Nat

namespace Interner

/-- The name of a string that has one. -/
def find? (t : Interner) (s : String) : Option Name :=
  ((t.shards.get (shardOf s)).positions.get? s).map (Name.pack (shardOf s))

/-- Puts a new string into its shard. -/
def push (t : Interner) (s : String) : Interner :=
  let i := shardOf s
  ⟨t.shards.set i ((t.shards.get i).push s), t.size + 1⟩

/-- The name of a string, given to it now if it has none. There is none to give when the shard of
the string is full. -/
def intern? (t : Interner) (s : String) : Option (Name × Interner) :=
  match t.find? s with
  | some name => some (name, t)
  | none =>
    let position := (t.shards.get (shardOf s)).strings.size
    if position < shardCapacity then some (.pack (shardOf s) position, t.push s) else none

/-- The name of a string in an interner whose shards have room. -/
def intern (t : Interner) (s : String) : Name × Interner :=
  (t.intern? s).getD (.empty, t)

/-- The string of a name. -/
def lookup? (t : Interner) (n : Name) : Option String :=
  t.shards[n.shard]?.bind (·.strings[n.position]?)

/-- Whether only the empty string has a name. -/
def isEmpty (t : Interner) : Bool :=
  t.size ≤ 1

/-- The interner in which only the empty string has a name. -/
def start : Interner :=
  ⟨(Vector.replicate shardCount .empty).set 0 (Shard.empty.push ""), 1⟩

/-- The further strings that have a name from the start. -/
def wellKnown : List String :=
  ["eval", "arguments", "prototype", "constructor", "length", "name", "valueOf", "toString",
    "undefined"]

/-- The interner to begin with. -/
def initial : Interner :=
  wellKnown.foldl (fun t s => (t.intern s).2) start

instance : Inhabited Interner := ⟨initial⟩

end Interner

end ScriptOps
