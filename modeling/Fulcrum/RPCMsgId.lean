import Mathlib.Tactic.Basic

/-!
# Fulcrum.RPCMsgId

`RPCMsgId` (`RPCMsgId.h`), a JSON-RPC id that is an integer or a string: a tag and two
payloads, `idata` for an `Integer` id and `sdata` for a `String` id.  Every constructor and
assignment operator is modelled with the fields it sets, and `WellFormed` is the
representation invariant the rest of the class relies on: only the active payload is set.

The default constructor, the `int64_t` and `QString&&` constructors and the assignment
operators set the tag together with its payload.  The `const QString&` constructor does
not: it tags its string `Integer` (`ofConstString_not_wellFormed`), so the `std::hash` and
`qHash` of such an id read the empty integer payload, and every id built that way hashes
alike.
-/

namespace Fulcrum

/-- `RPCMsgId::Type`. -/
inductive RPCMsgIdType where
  | null
  | integer
  | string
  deriving DecidableEq, Repr

/-- The three fields of `RPCMsgId`: `typ`, `idata` (an `int64_t`) and `sdata`. -/
structure RPCMsgId where
  typ : RPCMsgIdType
  idata : Int
  sdata : String
  deriving DecidableEq, Repr

namespace RPCMsgId

/-- `RPCMsgId() = default`: `Null`, `idata{}`, `sdata{}`. -/
def default : RPCMsgId := ⟨.null, 0, ""⟩

/-- `RPCMsgId(int64_t intVal) : typ(Integer), idata(intVal)`. -/
def ofInt (intVal : Int) : RPCMsgId := ⟨.integer, intVal, ""⟩

/-- `RPCMsgId(const QString &str) : typ(Integer), sdata(str)`. -/
def ofConstString (str : String) : RPCMsgId := ⟨.integer, 0, str⟩

/-- `RPCMsgId(QString &&str) : typ(String), sdata(std::move(str))`. -/
def ofString (str : String) : RPCMsgId := ⟨.string, 0, str⟩

/-- `operator=(const QString &s)` and `operator=(QString &&s)`: both set `String`, the
string and `idata = {}`. -/
def assignString (_ : RPCMsgId) (s : String) : RPCMsgId := ⟨.string, 0, s⟩

/-- `operator=(int64_t i)`: `Integer`, `sdata.clear()`, the integer. -/
def assignInt (_ : RPCMsgId) (i : Int) : RPCMsgId := ⟨.integer, i, ""⟩

/-- `clear()`: `*this = RPCMsgId()`. -/
def clear (_ : RPCMsgId) : RPCMsgId := default

/-- `std::hash<RPCMsgId>`, given `Util::hashForStd` on each payload type. -/
def stdHash (hashStr : String → Nat) (hashInt : Int → Nat) (r : RPCMsgId) : Nat :=
  match r.typ with
  | .string => hashStr r.sdata
  | .integer => hashInt r.idata
  | .null => 0

/-- `qHash(const RPCMsgId &, seed)`, given Qt's `qHash` on each payload type. -/
def qHash (hashStr : String → Nat → Nat) (hashInt : Int → Nat → Nat) (r : RPCMsgId)
    (seed : Nat) : Nat :=
  match r.typ with
  | .string => hashStr r.sdata seed
  | .integer => hashInt r.idata seed
  | .null => seed

/-- The representation invariant: only the active payload is set. -/
def WellFormed : RPCMsgId → Prop
  | ⟨.integer, _, sdata⟩ => sdata = ""
  | ⟨.string, idata, _⟩ => idata = 0
  | ⟨.null, idata, sdata⟩ => idata = 0 ∧ sdata = ""

instance : DecidablePred WellFormed
  | ⟨.integer, _, sdata⟩ => inferInstanceAs (Decidable (sdata = ""))
  | ⟨.string, idata, _⟩ => inferInstanceAs (Decidable (idata = 0))
  | ⟨.null, idata, sdata⟩ => inferInstanceAs (Decidable (idata = 0 ∧ sdata = ""))

/-- The `const QString&` constructor tags its string `Integer`: the id it builds from
`"a"` breaks the invariant, differs from the id assigning `"a"` gives, and hashes like
the integer `0`, as every id built through it does. -/
theorem ofConstString_not_wellFormed :
    ¬ (ofConstString "a").WellFormed ∧ ofConstString "a" ≠ assignString default "a" ∧
    ∀ (hashStr : String → Nat) (hashInt : Int → Nat) (s : String),
      stdHash hashStr hashInt (ofConstString s) = stdHash hashStr hashInt (ofInt 0) :=
  ⟨by decide, by decide, fun _ _ _ => rfl⟩

end RPCMsgId

end Fulcrum
