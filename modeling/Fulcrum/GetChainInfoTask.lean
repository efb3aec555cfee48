import Fulcrum.Controller.System

/-!
# Fulcrum.GetChainInfoTask

`GetChainInfoTask::process` submits `getblockchaininfo`, and its reply handler parses the
reply into the task's `ChainInfo` (`onReply`).  The handler reads the fields in order and
calls `Err(thing)` at the first that does not check out: `errorCode` takes the request's
id, `errorMessage` is `"Failed to parse " + thing`, and the `catch` emits `errored`.
Otherwise the task emits `success`.

Qt's `QVariant` conversions and `Util::ParseHexFast` are not under `src/`; `ReplyOps`
collects the ones the handler calls, with the one fact the proofs use of them: `toInt`
returns an `int`.

Every rejection carries the request's id and names one of the checked fields
(`onReply_error`), and an accepted reply gives a `ChainInfo` of the kind the system model
lets a chain-info task succeed with (`info_valid_of_onReply`).
-/

namespace Fulcrum

/-- Modelled from the spec: the calls of the reply handler that are Qt's or `Util`'s, none
under `src/`.  `toMap` lists the entries of `QVariant::toMap()`, `null` is the `QVariant()`
that `QVariantMap::value` gives for a missing key, `toInt` is `toInt(&ok)` with `ok`,
`canConvertBool` is `canConvert<bool>()`, and `parseHexFast` is `Util::ParseHexFast`.  Its
contract: `toInt` gives an `int`. -/
structure ReplyOps (Variant : Type) where
  toMap : Variant → List (String × Variant)
  null : Variant
  toInt : Variant → Int × Bool
  toString : Variant → String
  toByteArray : Variant → Bytes
  canConvertBool : Variant → Bool
  toBool : Variant → Bool
  parseHexFast : Bytes → Bytes
  toInt_int : ∀ v, -2 ^ 31 ≤ (toInt v).1 ∧ (toInt v).1 < 2 ^ 31

/-- `QVariantMap::value(key)`: the value under `key`, or `QVariant()`. -/
def ReplyOps.value {Variant : Type} (ops : ReplyOps Variant) (map : List (String × Variant))
    (key : String) : Variant :=
  (map.lookup key).getD ops.null

/-- The fields of a `GetChainInfoTask` its reply handler writes: the fields of `info` the
controller reads, and `CtlTask`'s `errorCode` (an `int`) and `errorMessage`. -/
structure GetChainInfoTask where
  info : ChainInfo
  errorCode : Int
  errorMessage : String
  deriving DecidableEq, Repr

namespace GetChainInfoTask

variable {Variant : Type} (ops : ReplyOps Variant)

/-- `Err(thing)`: `errorCode = id` (the `int64_t` id, narrowed to `int`) and
`errorMessage = "Failed to parse " + thing`, then the throw that the handler's `catch`
turns into `emit errored()`. -/
def err (t : GetChainInfoTask) (id : Int) (thing : String) :
    Except GetChainInfoTask GetChainInfoTask :=
  .error { t with errorCode := asInt id, errorMessage := "Failed to parse " ++ thing }

/-- The `getblockchaininfo` reply handler of `GetChainInfoTask::process`, for a reply whose
`resp.id.toInt()` is `id` and whose `resp.result()` is `result`: `ok` is `emit success()`,
`error` is `emit errored()` after `Err`.  Of the fields the controller never reads
(`headers`, `bestBlockhash`, `difficulty`, `mtp`, `verificationProgress`, `chainWork`,
`sizeOnDisk`, `pruned`, `warnings`), only the check on `bestblockhash` is kept: the others
cannot fail. -/
def onReply (t : GetChainInfoTask) (id : Int) (result : Variant) :
    Except GetChainInfoTask GetChainInfoTask :=
  let map := ops.toMap result
  if map.isEmpty then err t id "response; expected map" else
  let blocks := ops.toInt (ops.value map "blocks")
  let t := { t with info := { t.info with blocks := blocks.1 } }
  if blocks.2 = false ∨ blocks.1 < 0 then err t id "blocks" else
  let chain := ops.toString (ops.value map "chain")
  let t := { t with info := { t.info with chain } }
  if chain.isEmpty then err t id "chain" else
  let bestBlockhash := ops.parseHexFast (ops.toByteArray (ops.value map "bestblockhash"))
  if bestBlockhash.length ≠ uint256Width then err t id "bestblockhash" else
  let v := ops.value map "initialblockdownload"
  if ops.canConvertBool v then
    .ok { t with info := { t.info with initialBlockDownload := ops.toBool v } }
  else err t id "initialblockdownload"

/-! ## A sample of the conversions -/

/-- A JSON value as the RPC layer hands it to the handler, for running the handler. -/
inductive JsonValue where
  | null
  | bool (b : Bool)
  | number (n : Int)
  | string (s : String)
  | object (entries : List (String × JsonValue))

/-- The value of a lower-case ASCII hex digit. -/
def hexValue (c : UInt8) : Option UInt8 :=
  if 48 ≤ c ∧ c ≤ 57 then some (c - 48)
  else if 97 ≤ c ∧ c ≤ 102 then some (c - 87)
  else none

/-- Hex digits, two to a byte. -/
def decodeHex : Bytes → Option Bytes
  | [] => some []
  | hi :: lo :: rest => do
    let h ← hexValue hi
    let l ← hexValue lo
    let r ← decodeHex rest
    pure ((h * 16 + l) :: r)
  | [_] => none

/-- Qt's conversions on the kinds of value a reply holds; `parseHexFast` gives nothing for
text that is not hex. -/
def sampleOps : ReplyOps JsonValue where
  toMap | .object m => m | _ => []
  null := .null
  toInt | .number n => if -2 ^ 31 ≤ n ∧ n < 2 ^ 31 then (n, true) else (0, false) | _ => (0, false)
  toString | .string s => s | _ => ""
  toByteArray | .string s => s.toList.map (·.toNat.toUInt8) | _ => []
  canConvertBool | .bool _ | .number _ | .string _ => true | _ => false
  toBool | .bool b => b | .number n => n != 0 | _ => false
  parseHexFast b := (decodeHex b).getD []
  toInt_int v := by
    cases v
    case number n => dsimp only; split <;> omega
    all_goals (dsimp only; decide)

/-- A reply from a node on `main` at height `2`, out of IBD. -/
def mainReply : JsonValue :=
  .object [("chain", .string "main"), ("blocks", .number 2),
    ("bestblockhash", .string (String.mk (List.replicate 64 '0'))),
    ("initialblockdownload", .bool false)]

/-! ## What the handler's outcomes carry -/

/-- The names `Err` gives the handler's checks, in the order it makes them. -/
def replyFields : List String :=
  ["response; expected map", "blocks", "chain", "bestblockhash", "initialblockdownload"]

/-- Every rejection carries the request's id as `errorCode` and names one of the checked
fields in `errorMessage`. -/
theorem onReply_error {t t' : GetChainInfoTask} {id : Int} {result : Variant}
    (h : onReply ops t id result = .error t') :
    t'.errorCode = asInt id ∧ ∃ thing ∈ replyFields, t'.errorMessage = "Failed to parse " ++ thing := by
  simp only [onReply, err] at h
  split_ifs at h <;> cases h <;> simp [replyFields]

/-- A reply with no `chain`: its height is read, and it is rejected at `chain`. -/
example : onReply sampleOps ⟨⟨"", 0, false⟩, 0, ""⟩ 7 (.object [("blocks", .number 2)]) =
      .error ⟨⟨"", 2, false⟩, 7, "Failed to parse chain"⟩ := rfl

/-- An accepted reply carries a `ChainInfo` with an `int` height that is not negative and a
chain name: what the system model requires of the `ChainInfo` a chain-info task succeeds
with (`TaskRec.CanSucceed`). -/
theorem info_valid_of_onReply {t t' : GetChainInfoTask} {id : Int} {result : Variant}
    (h : onReply ops t id result = .ok t') : t'.info.Valid := by
  simp only [onReply] at h
  split_ifs at h with h1 h2 h3 <;> cases h
  simp only [not_or, not_lt] at h2
  refine ⟨h2.2, (ops.toInt_int _).2, fun e => ?_⟩
  dsimp only at e
  rw [e] at h3
  exact absurd h3 (by decide)

/-- `mainReply` is accepted, with the chain, height and flag it carries. -/
example : onReply sampleOps ⟨⟨"", 0, false⟩, 0, ""⟩ 1 mainReply =
    .ok ⟨⟨"main", 2, false⟩, 0, ""⟩ := rfl

end GetChainInfoTask

end Fulcrum
