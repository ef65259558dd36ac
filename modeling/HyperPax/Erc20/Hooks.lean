/-
  Erc20/Hooks.lean --- conversions that receipts and IBC packets trigger, and whole runs.

  Source: x/erc20/keeper/{evm_hooks,ibc_callbacks}.go, x/erc20/ibc_middleware.go and
  x/ibc/transfer/keeper/msg_server.go.

  The EVM executes the body of a transaction; what matters of it here are the transfers of
  tokens it makes and the logs it leaves.  The IBC transfer application moves the coins of a
  packet before the middleware runs: it mints or burns a voucher, or takes the coins from or
  to an escrow account.
-/
import HyperPax.Erc20.Keeper

set_option autoImplicit false

namespace HyperPax.Erc20

open Lib

variable (env : Env)

/-! ## Receipts -/

/-- A log of a receipt. -/
structure Log where
  address : Address
  topics : List Text
  data : Text

/-- A positive amount, from the data of a `Transfer` event. -/
def transferredAmount (data : Text) : Option Nat :=
  (Abi.readWord data).bind fun tokens => if 0 < tokens then some tokens else none

/-- The pair registered for a contract. -/
def State.pairOfContract (s : State) (contract : Address) : Option TokenPair :=
  (s.registry.byERC20[contract.bytes]?).bind fun id => s.registry.pairs[id]?

/-- The first half of a conversion: burn the tokens, or mint the coins. -/
def takeTokens (s : State) (pair : TokenPair) (contract : Address) (tokens : Nat) :
    Except Err State :=
  match pair.contractOwner with
  | .ownerModule => burnTokens env s contract tokens
  | .ownerExternal => mintCoins env s pair.denom tokens
  | .ownerUnspecified => .error .undefinedOwner

/-- The conversion of tokens that were sent to the module.  What was done before an error stays. -/
def convertReceived (s : State) (pair : TokenPair) (contract recipient : Address) (tokens : Nat) :
    State :=
  match takeTokens env s pair contract tokens with
  | .error _ => s
  | .ok s₁ =>
    match sendFromModule env s₁ recipient pair.denom tokens with
    | .error _ => s₁
    | .ok s₂ => s₂

/-- The body of the loop of `PostTxProcessing`; events other than `Transfer` are passed over. -/
def processLog (s : State) (log : Log) : State :=
  match log.topics with
  | [eventID, src, dst] =>
    if eventID ≠ env.transferID then s
    else
      match transferredAmount log.data with
      | none => s
      | some tokens =>
        match s.pairOfContract log.address with
        | none => s
        | some pair =>
          if .ofBytes dst ≠ env.moduleAddress then s
          else if pair.enabled = false then s
          else convertReceived env s pair log.address (.ofBytes src) tokens
  | _ => s

/-- `PostTxProcessing`. -/
def postTxProcessing (s : State) (logs : List Log) : State :=
  if s.params.enableErc20 = false ∨ s.params.enableEVMHook = false then s
  else logs.foldl (processLog env) s

/-! ## Packets -/

/-- The coin of a packet as this chain names it: a voucher, or a coin that comes back. -/
inductive PacketCoin where
  | voucher (hash : Text)
  | returning (denom : Text) (escrow : Address)

def PacketCoin.denom : PacketCoin → Text
  | .voucher hash => ascii "ibc/" ++ hash
  | .returning denom _ => denom

structure Packet where
  sender : Address
  recipient : Address
  coin : PacketCoin
  amount : Nat
  /-- `IsEVMChannel` of the destination -/
  evmChannel : Bool

/-- The transfer application gives the coins of a packet to an account. -/
def creditCoin (s : State) (coin : PacketCoin) (n : Nat) (dst : Address) : Except Err State := do
  require (env.blockedAddr dst = false) (.receiverBlocked dst)
  match coin with
  | .voucher hash => .ok { s with bank := s.bank.create dst (ascii "ibc/" ++ hash) n }
  | .returning denom escrow => sendCoins env s escrow dst denom n (.bankRefused denom n)

/-- `OnRecvPacket` of the keeper: an error is an error acknowledgement. -/
def onRecvPacket (s : State) (p : Packet) : Except Err State :=
  let denom := p.coin.denom
  if s.params.enableErc20 = false then .ok s
  else if p.sender = p.recipient ∧ p.evmChannel = false then .ok s
  else if env.isModuleAccount p.sender then .ok s
  else if denom = env.bondDenom then .ok s
  else
    match s.registry.getTokenPairID denom with
    | none => .ok s
    | some id =>
      if (s.registry.pairs[id]?).any (fun pair => pair.enabled) = false then .ok s
      else convertCoin env s ⟨denom, s.bank.balances p.recipient denom, p.recipient, p.recipient⟩

/-- A packet is received: after an error acknowledgement nothing is kept. -/
def recvPacket (s : State) (p : Packet) : Except Err State := do
  let s₁ ← creditCoin env s p.coin p.amount p.recipient
  onRecvPacket env s₁ p

/-- `ConvertCoinToERC20FromPacket`. -/
def convertCoinToERC20FromPacket (s : State) (p : Packet) : Except Err State :=
  let denom := p.coin.denom
  if env.isModuleAccount p.sender then .ok s
  else if denom = env.bondDenom then .ok s
  else if s.params.enableErc20 = false ∨ s.registry.isDenomRegistered denom = false then .ok s
  else convertCoin env s ⟨denom, p.amount, p.sender, p.sender⟩

/-- A packet failed or timed out: the sender is refunded. -/
def refundPacket (s : State) (p : Packet) : Except Err State := do
  let s₁ ← creditCoin env s p.coin p.amount p.sender
  convertCoinToERC20FromPacket env s₁ p

structure MsgTransfer where
  sender : Address
  denom : Text
  amount : Nat
  /-- the escrow account of the channel; none if the coin is a voucher that is burned -/
  escrow : Option Address

/-- The transfer application takes the coins of a packet from an account. -/
def debitCoin (s : State) (src : Address) (denom : Text) (n : Nat) (escrow : Option Address) :
    Except Err State :=
  match escrow with
  | some dst => sendCoins env s src dst denom n (.bankRefused denom n)
  | none => do
    require (n ≤ s.bank.balances src denom) (.bankRefused denom n)
    .ok { s with bank := s.bank.destroy src denom n }

/-- `strings.TrimPrefix(denom, "erc20/")`. -/
def trimModuleName (denom : Text) : Text :=
  if (moduleName ++ ascii "/").isPrefixOf denom then denom.drop 6 else denom

/-- `Transfer` of the wrapped transfer keeper: missing coins are converted from tokens. -/
def ibcTransfer (s : State) (msg : MsgTransfer) : Except Err State :=
  match (s.registry.getTokenPairID (trimModuleName msg.denom)).bind fun id =>
      s.registry.pairs[id]? with
  | none => debitCoin env s msg.sender msg.denom msg.amount msg.escrow
  | some pair =>
    if pair.enabled = false ∨ s.params.enableErc20 = false then
      debitCoin env s msg.sender msg.denom msg.amount msg.escrow
    else
      let balance := s.bank.balances msg.sender pair.denom
      if msg.amount ≤ balance then debitCoin env s msg.sender pair.denom msg.amount msg.escrow
      else do
        let s₁ ← convertERC20 env s
          ⟨env.addressString pair.erc20Address, msg.amount - balance, msg.sender, msg.sender⟩
        debitCoin env s₁ msg.sender pair.denom msg.amount msg.escrow

/-! ## Transactions -/

/-- What a transaction does to a token, or a log that it leaves. -/
inductive TokenEffect where
  /-- by the holder, or by someone the holder has approved -/
  | transfer (contract src dst : Address) (n : Nat)
  | mint (contract dst : Address) (n : Nat)
  | burn (contract src : Address) (n : Nat)
  /-- any other log -/
  | emit (log : Log)

/-- What the body of an Ethereum transaction does. -/
inductive Effect where
  | token (e : TokenEffect)
  /-- a call of the ICS-20 precompile that succeeds -/
  | transferICS20 (msg : MsgTransfer)

/-- The log of a transfer. -/
def transferLog (contract src dst : Address) (n : Nat) : Log :=
  ⟨contract, [env.transferID, .replicate 12 0 ++ src.bytes, .replicate 12 0 ++ dst.bytes],
    Abi.word n⟩

/-- A token takes a step. -/
def State.actToken (s : State) (contract : Address) (act : Token → Option Token) : Option State :=
  ((s.tokens contract).bind act).map fun t =>
    { s with tokens := Function.update s.tokens contract (some t) }

/-- One effect on a token, with its log. -/
def TokenEffect.run (s : State) : TokenEffect → Option (State × Log)
  | .transfer contract src dst n =>
    (s.actToken contract fun t => t.transfer src dst n).map fun s' =>
      (s', transferLog env contract src dst n)
  | .mint contract dst n =>
    (s.actToken contract fun t => t.mint dst n).map fun s' =>
      (s', transferLog env contract .zero dst n)
  | .burn contract src n =>
    (s.actToken contract fun t => t.burn src n).map fun s' =>
      (s', transferLog env contract src .zero n)
  | .emit log => some (s, log)

/-- A transaction under way.  Its StateDB holds back what it writes to a contract until the end,
while a conversion runs in a StateDB of its own, over the store, and commits there. -/
structure Body where
  /-- the tokens as the StateDB has read them -/
  opened : Address → Option Token
  /-- the state with what it has written -/
  view : State
  /-- the tokens in the store -/
  store : Address → Option Token

def Body.start (s : State) : Body := ⟨s.tokens, s, s.tokens⟩

/-- The slots of a token in which `view` is the same as `opened` are those of the store. -/
def Token.refresh (opened view store : Token) : Token where
  balances a := if view.balances a = opened.balances a then store.balances a else view.balances a
  totalSupply :=
    if view.totalSupply = opened.totalSupply then store.totalSupply else view.totalSupply

def refresh (opened view store : Address → Option Token) : Address → Option Token := fun a =>
  match opened a, view a, store a with
  | some o, some v, some s => some (o.refresh v s)
  | _, v, _ => v

/-- The store has changed under a transaction: what it has not written it reads there, and what it
has written it will write over it at the end. -/
def Body.commit (b : Body) (s : State) : Body where
  opened := refresh b.view.tokens b.opened s.tokens
  view := { s with tokens := refresh b.opened b.view.tokens s.tokens }
  store := s.tokens

/-- One effect, with its logs. -/
def Effect.run (b : Body) : Effect → Option (Body × List Log)
  | .token e => (e.run env b.view).map fun r => ({ b with view := r.1 }, [r.2])
  | .transferICS20 msg =>
    (ibcTransfer env { b.view with tokens := b.store } msg).toOption.map fun s => (b.commit s, [])

/-- The body of a transaction: the effects in their order, and the logs. -/
def runEffects : Body → List Effect → Option (Body × List Log)
  | b, [] => some (b, [])
  | b, e :: es =>
    (e.run env b).bind fun r => (runEffects r.1 es).map fun r' => (r'.1, r.2 ++ r'.2)

/-- A transaction that succeeds, and the hook on its receipt. -/
def ethereumTx (s : State) (effects : List Effect) : Option State :=
  (runEffects env (.start s) effects).map fun r => postTxProcessing env r.1.view r.2

/-! ## Runs -/

/-- What can happen to the state. -/
inductive Label where
  | proposal (p : Proposal)
  | convertCoin (msg : MsgConvertCoin)
  | convertERC20 (msg : MsgConvertERC20)
  | recvPacket (p : Packet)
  | refundPacket (p : Packet)
  | ibcTransfer (msg : MsgTransfer)
  | ethereumTx (effects : List Effect)
  /-- other modules and contracts change coins, tokens or parameters -/
  | outside (params : Params) (bank : Bank) (tokens : Address → Option Token)

/-- A step of the chain; `none` if it fails, which leaves the state as it was. -/
def step (s : State) : Label → Option State
  | .proposal p => (executeProposal env s p).toOption
  | .convertCoin msg => (convertCoin env s msg).toOption
  | .convertERC20 msg => (convertERC20 env s msg).toOption
  | .recvPacket p => (recvPacket env s p).toOption
  | .refundPacket p => (refundPacket env s p).toOption
  | .ibcTransfer msg => (ibcTransfer env s msg).toOption
  | .ethereumTx effects => ethereumTx env s effects
  | .outside params bank tokens => some { s with params, bank, tokens }

end HyperPax.Erc20
