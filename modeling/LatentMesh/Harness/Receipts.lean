import LatentMesh.Bridge.Wire
import LatentMesh.Harness.Canonical

/-!
# The receipt log

`hash`, `ReceiptLog` and `verifyChain` of `chain.mjs`. SHA-256 is a parameter. `verifyChain` returns
nothing where the source throws: at an entry that is null, and where an index has no text.
-/

namespace LatentMesh.Harness.Chain

open LatentMesh.Lib
open LatentMesh.Bridge (asBytes)

variable (sha256 : List UInt8 → List UInt8)

/-- `GENESIS`. -/
def genesis : JsString := textUnits (List.replicate 64 '0')

/-- `createHash("sha256").update(canonical(value)).digest("hex")`. -/
def hash (value : Json) : JsString :=
  jsString (hexText (sha256 (asBytes (String.ofList (canonical value)))))

/-! ## The log -/

/-- An entry of a log. -/
structure Receipt where
  index : Nat
  step : Json
  payloadHash : JsString
  payload : Json
  prevHash : JsString
  thisHash : JsString

namespace Receipt

/-- The members that are hashed. -/
def bodyMembers (receipt : Receipt) : List Member :=
  [(jsString "index", .number (.ofNat receipt.index)), (jsString "step", receipt.step),
    (jsString "payloadHash", .string receipt.payloadHash),
    (jsString "payload", receipt.payload), (jsString "prevHash", .string receipt.prevHash)]

/-- The receipt without its own hash. -/
def body (receipt : Receipt) : Json := .object receipt.bodyMembers

/-- The entry as it is written. -/
def toJson (receipt : Receipt) : Json :=
  .object (receipt.bodyMembers ++ [(jsString "thisHash", .string receipt.thisHash)])

end Receipt

/-- The entries of a log. -/
structure ReceiptLog where
  receipts : List Receipt

namespace ReceiptLog

/-- A log without entries. -/
def empty : ReceiptLog := ⟨[]⟩

/-- `head`. -/
def head (log : ReceiptLog) : JsString :=
  match log.receipts.getLast? with
  | some receipt => receipt.thisHash
  | none => genesis

/-- The receipt that `append` stores and returns. -/
def nextReceipt (log : ReceiptLog) (step payload : Json) : Receipt :=
  let receipt : Receipt :=
    { index := log.receipts.length, step, payloadHash := hash sha256 payload, payload,
      prevHash := log.head, thisHash := [] }
  { receipt with thisHash := hash sha256 receipt.body }

/-- `append`. -/
def append (log : ReceiptLog) (step payload : Json) : ReceiptLog :=
  ⟨log.receipts ++ [log.nextReceipt sha256 step payload]⟩

/-- The log after a sequence of calls of `append`. -/
def appendAll (log : ReceiptLog) (calls : List (Json × Json)) : ReceiptLog :=
  calls.foldl (fun log call => log.append sha256 call.1 call.2) log

/-- `toJSON`. -/
def toJson (log : ReceiptLog) : Json :=
  .object [(jsString "genesis", .string genesis), (jsString "head", .string log.head),
    (jsString "entries", .array (log.receipts.map Receipt.toJson))]

end ReceiptLog

/-! ## Verification -/

/-- What a replay finds. -/
structure Verdict where
  pass : Bool
  brokenAt : Option Nat
  reasons : List JsString

/-- The variables of the loop of `verifyChain`. -/
structure Replay where
  prevHash : Option Json
  brokenAt : Option Nat
  reasons : List JsString

/-- `reasons.push(reason)`, and `brokenAt` when it is the first. -/
def Replay.fail (replay : Replay) (index : Nat) (reason : JsString) : Replay :=
  { replay with
    reasons := replay.reasons ++ [reason]
    brokenAt := some (replay.brokenAt.getD index) }

/-- The start of a message about an entry. -/
def entryText (index : Nat) (text : String) : JsString :=
  jsString s!"entry {index} {text}"

/-- The items of an array, or the units of a string, as properties. -/
def indexed (items : List Json) : List Member :=
  items.zipIdx.map fun item => (textUnits (Nat.toDigits 10 item.2), item.1)

/-- `const { thisHash, ...body } = receipt`. -/
def splitReceipt : Json → Option (Option Json × Json)
  | .null => none
  | .object members =>
      some ((Json.object members).get "thisHash",
        .object (members.filter fun member => member.1 ≠ jsString "thisHash"))
  | .array items => some (none, .object (indexed items))
  | .string units => some (none, .object (indexed (units.map fun unit => .string [unit])))
  | _ => some (none, .object [])

/-- The text of a value that may be undefined. -/
def shownText : Option Json → Option JsString
  | none => some (jsString "undefined")
  | some value => value.toJsString

/-- `receipt.prevHash !== prevHash`. -/
def checkPrevHash (receipt : Json) (index : Nat) (replay : Replay) : Replay :=
  if Json.strictEq (receipt.get "prevHash") replay.prevHash then replay
  else replay.fail index (entryText index "prevHash does not chain")

/-- `body.index !== index`. -/
def checkIndex (body : Json) (index : Nat) (replay : Replay) : Option Replay :=
  if Json.strictEq (body.get "index") (some (.number (.ofNat index))) then some replay
  else do
    let shown ← shownText (body.get "index")
    some (replay.fail index (entryText index "declares index " ++ shown))

/-- `hash(body) !== thisHash`. -/
def checkHash (body : Json) (thisHash : Option Json) (index : Nat) (replay : Replay) : Replay :=
  if Json.strictEq (some (.string (hash sha256 body))) thisHash then replay
  else replay.fail index (entryText index "thisHash does not match body")

/-- One turn of the loop. -/
def replayEntry (receipt : Json) (index : Nat) (replay : Replay) : Option Replay := do
  let (thisHash, body) ← splitReceipt receipt
  let replay := checkPrevHash receipt index replay
  let replay ← checkIndex body index replay
  some { checkHash sha256 body thisHash index replay with prevHash := thisHash }

/-- The loop of `verifyChain`. -/
def replayFrom (index : Nat) (replay : Replay) : List Json → Option Replay
  | [] => some replay
  | receipt :: receipts => do
      let replay ← replayEntry sha256 receipt index replay
      replayFrom (index + 1) replay receipts

/-- `chain.genesis ?? GENESIS`. -/
def genesisOf (chain : Json) : Json :=
  match chain.get "genesis" with
  | none | some .null => .string genesis
  | some value => value

/-- `verifyChain`. -/
def verifyChain (chain : Json) : Option Verdict :=
  match chain.get "entries" with
  | some (.array entries) => do
      let replay ← replayFrom sha256 0 ⟨some (genesisOf chain), none, []⟩ entries
      let reasons := if Json.strictEq (chain.get "head") replay.prevHash then replay.reasons
        else replay.reasons ++ [jsString "chain head does not match the last entry's hash"]
      some ⟨reasons.isEmpty, replay.brokenAt, reasons⟩
  | _ => some ⟨false, some 0, [jsString "chain has no entries array"]⟩

/-- The chain passes `verifyChain`. -/
def Passes (chain : Json) : Prop :=
  ∃ verdict, verifyChain sha256 chain = some verdict ∧ verdict.pass = true

end LatentMesh.Harness.Chain
