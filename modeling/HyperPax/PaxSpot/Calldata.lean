/-
  PaxSpot/Calldata.lean --- the call of the clearing precompile, byte by byte.

  `clearBatch` calls `IBatchClearing.computeClearing`, which takes two arrays of structures.
  The precompile reads its input by its own `abi.json`, where the same orders are four
  parallel arrays.  The two methods share a name, but their canonical signatures
  differ; so the precompile is sent a selector it has no method for.

  A selector is the start of a hash of the signature.  The hash is not modelled: a
  function on signatures is given, and what is used of it is that it tells the two
  signatures apart.
-/
import HyperPax.Lib.Abi
import HyperPax.PaxSpot.Pricing

set_option autoImplicit false

namespace HyperPax.PaxSpot

open Lib List Entry
open Lib.Abi

structure Method where
  name : String
  inputs : Tys

/-- The canonical signature: the name and the types of the arguments. -/
def Method.signature (method : Method) : String :=
  method.name ++ "(" ++ method.inputs.names ++ ")"

/-- Four bytes. -/
@[ext]
structure Selector where
  bytes : Bytes
  length_eq : bytes.length = 4
deriving DecidableEq

/-- Call data: the selector, then the arguments as one row. -/
def Method.pack (method : Method) (selector : String → Selector) (args : method.inputs.Val) :
    Bytes :=
  (selector method.signature).bytes ++ encode (.tuple method.inputs) args

/-! ## The two descriptions of the call -/

/-- `IBatchClearing.Order`. -/
def orderTy : Ty := .tuple (.cons (.int 16 (by decide)) (.one (.uint 128 (by decide))))

/-- `computeClearing` of `IBatchClearing.sol`. -/
def interfaceMethod : Method where
  name := "computeClearing"
  inputs := .cons (.int 256 (by decide)) (.cons (.array orderTy) (.one (.array orderTy)))

/-- `computeClearing` of the precompile's `abi.json`. -/
def precompileMethod : Method where
  name := "computeClearing"
  inputs := .cons (.int 256 (by decide)) (.cons (.array (.int 16 (by decide)))
    (.cons (.array (.uint 128 (by decide))) (.cons (.array (.int 16 (by decide)))
      (.one (.array (.uint 128 (by decide)))))))

/-- What the precompile calls its arguments. -/
structure ClearingArgs where
  oraclePrice : Sint 256
  buyOffsets : List (Sint 16)
  buySizes : List (Uint 128)
  sellOffsets : List (Sint 16)
  sellSizes : List (Uint 128)

namespace ClearingArgs

def ofValues (values : precompileMethod.inputs.Val) : ClearingArgs :=
  match values with
  | (oraclePrice, buyOffsets, buySizes, sellOffsets, sellSizes) =>
    ⟨oraclePrice, buyOffsets, buySizes, sellOffsets, sellSizes⟩

/-- The offsets and sizes of two queues, in order. -/
def ofEntries (oraclePrice : Sint 256) (buys sells : List Entry) : ClearingArgs where
  oraclePrice := oraclePrice
  buyOffsets := buys.map offsetBps
  buySizes := buys.map size
  sellOffsets := sells.map offsetBps
  sellSizes := sells.map size

end ClearingArgs

/-! ## The caller -/

/-- An entry as the interface's structure. -/
def Entry.fields (e : Entry) : orderTy.Val := (e.offsetBps, e.size)

/-- The call data of `CLEARING.computeClearing(oraclePrice, buys, sells)` in `clearBatch`. -/
def clearBatchCalldata (selector : String → Selector) (oraclePrice : Sint 256)
    (buys sells : List Entry) : Bytes :=
  interfaceMethod.pack selector (oraclePrice, buys.map fields, sells.map fields)

/-! ## The precompile -/

/-- Why `Run` failed. -/
inductive RunError where
  | inputTooShort
  | noMethod (id : Bytes)
  | badArguments
  | buyLengthMismatch
  | sellLengthMismatch
deriving DecidableEq

/-- The head of `Run`: `MethodById`, for an ABI with one method, and `Unpack`. -/
def unpackCall (selector : String → Selector) (input : Bytes) : Except RunError ClearingArgs := do
  require (¬ input.length < 4) .inputTooShort
  require ((selector precompileMethod.signature).bytes = input.take 4) (.noMethod (input.take 4))
  let values ← orRevert (decode (.tuple precompileMethod.inputs) (input.drop 4)) .badArguments
  return .ofValues values

def zipEntries (offsets : List (Sint 16)) (sizes : List (Uint 128)) : List Entry :=
  .zipWith .mk offsets sizes

/-- `Run`, up to the packing of its result. -/
def runClearing (selector : String → Selector) (input : Bytes) : Except RunError Clearing := do
  let args ← unpackCall selector input
  require (args.buyOffsets.length = args.buySizes.length) .buyLengthMismatch
  require (args.sellOffsets.length = args.sellSizes.length) .sellLengthMismatch
  return computeClearing args.oraclePrice (zipEntries args.buyOffsets args.buySizes)
    (zipEntries args.sellOffsets args.sellSizes)

/-! ## Calls by the precompile's own description -/

section

variable (selector : String → Selector)

theorem take_pack (method : Method) (args : method.inputs.Val) :
    (method.pack selector args).take 4 = (selector method.signature).bytes := by
  rw [Method.pack]
  exact take_left' (selector method.signature).length_eq

theorem length_pack (method : Method) (args : method.inputs.Val) :
    ¬ (method.pack selector args).length < 4 := by
  rw [Method.pack, length_append, (selector method.signature).length_eq]
  omega

end

/-! ## Calls by the interface -/

/-- The precompile accepts the call of `clearBatch` and reads the same oracle price, offsets and
sizes, in the same order. -/
def Agrees (selector : String → Selector) (oraclePrice : Sint 256) (buys sells : List Entry) :
    Prop :=
  unpackCall selector (clearBatchCalldata selector oraclePrice buys sells) =
    .ok (.ofEntries oraclePrice buys sells)

/-- The signatures that are told apart. -/
def signatures : List String := [interfaceMethod.signature, precompileMethod.signature]

theorem unpackCall_interface {selector : String → Selector}
    (hne : selector interfaceMethod.signature ≠ selector precompileMethod.signature)
    (oracle : Sint 256) (buys sells : List Entry) :
    unpackCall selector (clearBatchCalldata selector oracle buys sells) =
      .error (.noMethod (selector interfaceMethod.signature).bytes) := by
  have htake := take_pack selector interfaceMethod
    (oracle, buys.map fields, sells.map fields)
  have hlength := length_pack selector interfaceMethod
    (oracle, buys.map fields, sells.map fields)
  have hbytes : (selector precompileMethod.signature).bytes ≠
      (selector interfaceMethod.signature).bytes := fun heq => hne (Selector.ext heq.symm)
  unfold unpackCall clearBatchCalldata
  rw [require, if_pos hlength, htake, require, if_neg hbytes]
  rfl

/-- The precompile has no method for any call of `clearBatch`, whatever the oracle price and the
orders. -/
theorem calldata_never_agrees (selector : String → Selector)
    (hselector : ∀ s ∈ signatures, ∀ t ∈ signatures, s ≠ t → selector s ≠ selector t)
    (oraclePrice : Sint 256) (buys sells : List Entry) :
    runClearing selector (clearBatchCalldata selector oraclePrice buys sells) =
        .error (.noMethod (selector interfaceMethod.signature).bytes) ∧
      ¬ Agrees selector oraclePrice buys sells := by
  have hsig : interfaceMethod.signature ≠ precompileMethod.signature := by decide
  have hdist := hselector _ mem_cons_self _ (mem_cons_of_mem _ mem_cons_self)
    hsig
  have hunpack := unpackCall_interface hdist oraclePrice buys sells
  refine ⟨?_, ?_⟩
  · rw [runClearing, hunpack]
    rfl
  · rw [Agrees, hunpack]
    exact fun heq => nomatch heq

/-- The selectors of the two signatures on chain: the first four bytes of their hashes. -/
def knownSelector (signature : String) : Selector :=
  if signature = interfaceMethod.signature then ⟨[0x83, 0x97, 0xe9, 0xf8], rfl⟩
  else ⟨[0xb6, 0xa4, 0xc9, 0xae], rfl⟩

/-- One buy and one sell of five at the oracle price of 100. -/
theorem one_order_a_side_rejected :
    interfaceMethod.signature = "computeClearing(int256,(int16,uint128)[],(int16,uint128)[])" ∧
    precompileMethod.signature = "computeClearing(int256,int16[],uint128[],int16[],uint128[])" ∧
    unpackCall knownSelector (clearBatchCalldata knownSelector (.wrap (100 * 10 ^ 18))
      [⟨.zero, .truncate 5⟩] [⟨.zero, .truncate 5⟩]) = .error (.noMethod [0x83, 0x97, 0xe9, 0xf8]) ∧
    ¬ Agrees knownSelector (.wrap (100 * 10 ^ 18)) [⟨.zero, .truncate 5⟩]
      [⟨.zero, .truncate 5⟩] := by
  have hne : knownSelector interfaceMethod.signature ≠
      knownSelector precompileMethod.signature := by decide
  have hunpack := unpackCall_interface hne (.wrap (100 * 10 ^ 18))
    [⟨.zero, .truncate 5⟩] [⟨.zero, .truncate 5⟩]
  refine ⟨by decide, by decide, hunpack, ?_⟩
  rw [Agrees, hunpack]
  exact fun heq => nomatch heq

theorem known_selectors_never_agree :
    (∀ s ∈ signatures, ∀ t ∈ signatures, s ≠ t → knownSelector s ≠ knownSelector t) ∧
    ∀ oraclePrice buys sells, ¬ Agrees knownSelector oraclePrice buys sells := by
  have hdist : ∀ s ∈ signatures, ∀ t ∈ signatures, s ≠ t →
      knownSelector s ≠ knownSelector t := by decide
  exact ⟨hdist, fun oraclePrice buys sells =>
    (calldata_never_agrees knownSelector hdist oraclePrice buys sells).2⟩

end HyperPax.PaxSpot
