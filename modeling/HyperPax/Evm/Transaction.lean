/-
  Evm/Transaction.lean --- one EVM transaction over the StateDB, the bank and the two
  native-coin precompiles.

  Source: x/evm/statedb, x/evm/keeper/statedb.go, precompiles/{scheduler,streams}; the
  frame around a call (`CanTransfer`, `Snapshot`, `Exist`, `CreateAccount`, `Transfer`,
  `RevertToSnapshot` on an error) is go-ethereum's `EVM.Call`.

  A transaction is any sequence of value transfers, storage writes, reads and calls of
  the precompiles, over one StateDB that starts empty.  The precompiles' keepers move
  coins in the bank, behind the StateDB's back; `handleSchedule` alone corrects the
  StateDB.  The configuration carries a history variable, `ledger`: the balances as one
  ledger would have them, where every value transfer and every transfer of a precompile
  happens once.
-/
import HyperPax.Evm.Balances
import HyperPax.Lib.Transition
import HyperPax.Precompiles.Handlers

set_option autoImplicit false

namespace HyperPax.Evm

open Lib

/-! ## The world -/

/-- The EVM keeper's stores, the stores of the two modules, and the ERC-20 balances. -/
structure World where
  backend : Backend
  scheduler : Scheduler.Store
  streams : Streams.Store
  tokens : Address → Ledger

namespace World

/-- What the precompiles see: the native coin is the token of the zero address. -/
def chain (w : World) : Precompiles.Chain where
  scheduler := w.scheduler
  streams := w.streams
  assets := Function.update w.tokens Address.zero w.backend.bank

/-- The stores after a precompile ran.  The bank has opened an account for every
recipient that had none. -/
def setChain (w : World) (s : Precompiles.Chain) : World where
  backend :=
    { w.backend with
      bank := s.bank
      accounts := fun a =>
        if w.backend.bank a < s.bank a then some ((w.backend.accounts a).getD .fresh)
        else w.backend.accounts a }
  scheduler := s.scheduler
  streams := s.streams
  tokens := s.assets

@[simp] theorem chain_bank (w : World) : w.chain.bank = w.backend.bank := by
  simp [chain, Precompiles.Chain.bank]

@[simp] theorem setChain_bank (w : World) (s : Precompiles.Chain) :
    (w.setChain s).backend.bank = s.bank := rfl

end World

/-! ## Call frames -/

/-- `CanTransfer` fails: asked only when there is a value. -/
def Insufficient (b : Backend) (db : StateDB) (caller : Address) (value : Nat) : Prop :=
  0 < value ∧ db.getBalance b caller < value
deriving Decidable

/-- `Transfer`. -/
def transfer (b : Backend) (db : StateDB) (src dst : Address) (n : Nat) : StateDB :=
  (db.subBalance b src n).addBalance b dst n

/-- A callee that does not exist is created, then the value is transferred.  (`Exist`
loads the callee; so does the transfer.) -/
def enter (b : Backend) (db : StateDB) (caller callee : Address) (value : Nat) : StateDB :=
  transfer b (if db.exist b callee then db else db.createAccount b callee) caller callee
    value

/-- A call of an account that is not a precompile, up to the point where its code starts:
nothing at all happens without a value and without a callee. -/
def callAccount (b : Backend) (db : StateDB) (caller callee : Address) (value : Nat) :
    StateDB × Bool :=
  if Insufficient b db caller value then (db.touch b caller, false)
  else if db.exist b callee = false ∧ value = 0 then (db, true)
  else (enter b db caller callee value, true)

/-- `PrecompileAddress` of the scheduler and of the streams precompile. -/
def schedulerAddress : Address := .ofNat 0x905
def streamsAddress : Address := .ofNat 0x906

/-- The precompile a method belongs to. -/
def callee : Precompiles.Method → Address
  | .schedule _ _ _ _ => schedulerAddress
  | .cancel _ => schedulerAddress
  | .reschedule _ _ => schedulerAddress
  | _ => streamsAddress

/-- The call takes the value out of the precompile's account again. -/
def Redirects (c : Precompiles.Call) : Prop :=
  match c.method with
  | .schedule _ _ _ _ => c.readOnly = false ∧ 0 < c.value
  | _ => False

instance (c : Precompiles.Call) : Decidable (Redirects c) := by
  unfold Redirects
  split <;> infer_instance

/-- The StateDB side of the precompile: `handleSchedule` cancels the credit of the
value. -/
def correct (b : Backend) (db : StateDB) (c : Precompiles.Call) : StateDB :=
  if Redirects c then db.subBalance b (callee c.method) c.value else db

/-- A call of a precompile.  When it returns an error the StateDB is reverted; the stores
behind it are not. -/
def callPrecompile (k : Precompiles.Keepers) (env : Precompiles.Env) (c : Precompiles.Call)
    (w : World) (db : StateDB) : World × StateDB × Bool :=
  if Insufficient w.backend db c.caller c.value then (w, db.touch w.backend c.caller, false)
  else
    let (db, revid) := db.snapshot
    let db := correct w.backend (enter w.backend db c.caller (callee c.method) c.value) c
    match (Precompiles.run k env c).run w.chain with
    | (s, .ok _) => (w.setChain s, db, true)
    | (s, .error _) =>
      let w := w.setChain s
      (w, (db.revertToSnapshot w.backend revid).getD db, false)

/-! ## Transactions -/

/-- A transaction under way. The one ledger it should come to is a history variable. -/
structure Config where
  world : World
  db : StateDB
  ledger : Address → Int

/-- A transaction starts with an empty StateDB. -/
def Config.start (w : World) (txConfig : TxConfig) : Config where
  world := w
  db := .new txConfig
  ledger := fun a => w.backend.bank a

/-- What the EVM does in a transaction. -/
inductive Label where
  | load (a : Address)
  | transfer (src dst : Address) (n : Nat)
  | setState (a : Address) (key value : Hash)
  | call (env : Precompiles.Env) (c : Precompiles.Call)

/-- What a call of a precompile does to the one ledger: the bank transfers it made, and,
when it succeeded and did not redirect the value, the transfer of the value. -/
def ledgerAfterCall (l : Address → Int) (c : Precompiles.Call) (succeeded : Bool)
    (bank bank' : Ledger) : Address → Int :=
  let l := if succeeded ∧ ¬ Redirects c then moved l c.caller (callee c.method) c.value
    else l
  fun a => l a + ((bank' a : Int) - bank a)

/-- One operation of the transaction.  Every operation is possible in every state. -/
def step (k : Precompiles.Keepers) (c : Config) : Label → Option Config
  | .load a => some { c with db := c.db.touch c.world.backend a }
  | .transfer src dst n =>
    let (db, entered) := callAccount c.world.backend c.db src dst n
    some { c with db := db, ledger := if entered then moved c.ledger src dst n else c.ledger }
  | .setState a key value => some { c with db := c.db.setState c.world.backend a key value }
  | .call env call =>
    let (w, db, succeeded) := callPrecompile k env call c.world c.db
    some
      { world := w
        db := db
        ledger := ledgerAfterCall c.ledger call succeeded c.world.backend.bank w.backend.bank }

end HyperPax.Evm
