import UtilityCss.Purge.Key
import UtilityCss.Purge.Markup

/-!
The keys that markup uses. Where the keys in question are known nothing else is recorded, so the
record never outgrows them.
-/
namespace UtilityCss

structure Usage where
  known : Option KeySet
  used : KeySet

namespace Usage

def ofKnown (known : Option KeySet) : Usage :=
  ⟨known, ∅⟩

def ofDistribution (dist : Distribution) : Except ConvertError Usage := do
  return ofKnown (some (← PurgeKey.ofDistribution dist))

def isKnown (usage : Usage) (key : String) : Bool :=
  match usage.known with
  | some known => known.contains key
  | none => true

def record (usage : Usage) (key : String) : Usage :=
  if usage.isKnown key then { usage with used := usage.used.insert key } else usage

/-- Markup in another encoding still yields a key, with U+FFFD for what cannot be read. -/
def recordTokens (usage : Usage) (tokens : List Octets) : Usage :=
  tokens.foldl (fun usage token => usage.record (String.ofList token.lenientText)) usage

def size (usage : Usage) : Nat :=
  usage.used.size

def isEmpty (usage : Usage) : Bool :=
  usage.used.isEmpty

/-- Records tokens and tells how many keys that added. -/
def scanTokens (usage : Usage) (tokens : List Octets) : Usage × Nat :=
  let after := usage.recordTokens tokens
  (after, after.size - usage.size)

/-- Records what a tokenizer delivers, tokens up to its end or up to an error, and tells how many
keys that added. Keys found before an error stay recorded. -/
def scanDelivered (usage : Usage) (delivered : List Octets × Option IoError) :
    Usage × Except IoError Nat :=
  let (tokens, error) := delivered
  let (after, count) := usage.scanTokens tokens
  (after, match error with
    | some error => .error error
    | none => .ok count)

/-- Scans markup. -/
def scan (usage : Usage) (feed : Feed) : Usage × Except IoError Nat :=
  usage.scanDelivered (Markup.tokens feed)

def isUsed (usage : Usage) (key : String) : Bool :=
  usage.used.contains key

/-- A rule goes when its key is not used. -/
def purges (usage : Usage) (key : String) : Bool :=
  !usage.isUsed key

end Usage

/-- The used keys as they were at some time. -/
structure UsedKeys where
  keys : KeySet

namespace UsedKeys

def contains (used : UsedKeys) (key : String) : Bool :=
  used.keys.contains key

def size (used : UsedKeys) : Nat :=
  used.keys.size

def isEmpty (used : UsedKeys) : Bool :=
  used.keys.isEmpty

def purges (used : UsedKeys) (key : String) : Bool :=
  !used.contains key

end UsedKeys

def Usage.snapshot (usage : Usage) : UsedKeys :=
  ⟨usage.used⟩

end UtilityCss
