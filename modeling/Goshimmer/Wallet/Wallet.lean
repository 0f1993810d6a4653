import Goshimmer.Client.UnspentOutputs
import Goshimmer.Core.Transaction
import Goshimmer.Wallet.AddressManager

/-!
# The wallet and its refresh

`wallet/wallet.c` up to the sending of funds. A wallet holds the endpoint of its node, the
address manager and the table of unspent outputs. A refresh asks the node for the outputs of
the wallet's addresses and replaces the outputs of the addresses it knows; an address without an
entry is added with the index which the reply decoder gave it.

An operation yields nothing when it does not return. This happens when a loop over the indices
never ends, and when the refresh of an empty address list frees a table pointer which was never
set and does not happen to be null.

The entries of the wallet's table and their copies get their memory. What a refused request for the
essence or for a signature does to a send is part of the environment of the operation.
-/

namespace Goshimmer

/-- `wallet_t`. -/
structure Wallet where
  endpoint : TangleClientConf
  addrManager : WalletAm
  unspent : UnspentOutputs
  deriving DecidableEq

/-- What one operation of the wallet meets outside its own data: the node, the memory behind the
buffers and the mask, the memory and byte order which the calls of `tx_essence` find, and the memory which
`wallet_sign_tx` finds. -/
structure Env where
  node : Node
  past : BufferPast
  heap : UInt64 → Byte
  /-- The local `res` of `wallet_refresh` holds null without having been set. -/
  strayIsNull : Bool
  signHost : Host
  /-- Which of the calls of `ed_signatures_add` get memory for their entry. -/
  signGranted : ℕ → Bool
  validHost : ℕ → Host
  base64Host : Host

/-- The loop body of `wallet_refresh` for one address of the reply. -/
def refreshEntry (table : UnspentOutputs) (unspent : UnspentOutputEntry) : UnspentOutputs :=
  match unspentOutputsFind table unspent.addr with
  | some elm =>
    let isSpent := elm.spent
    let table := unspentOutputsUpdate table unspent.addr unspent.ids
    unspentOutputsSetSpent table unspent.addr isSpent
  | none => (unspentOutputsAdd table unspent.addr unspent.addrIndex unspent.ids).2

variable (libs : Libraries) (env : Env)

/-- The addresses a refresh asks for. -/
def refreshAddresses (w : Wallet) (includeSpent : Bool) : Option (List AddressT) :=
  if includeSpent then amAddresses libs.sodium w.addrManager
  else amUnspentAddresses libs.sodium env.heap w.addrManager

/-- The reply of the node to a refresh: the return code and the table of the decoder. -/
def refreshReply (w : Wallet) (addrs : List AddressT) : Int × UnspentOutputs :=
  getUnspentOutputs libs env.past env.node w.endpoint addrs unspentOutputsInit

/-- `wallet_refresh`. -/
def walletRefresh (w : Wallet) (includeSpent : Bool) : Option (Bool × Wallet) :=
  match refreshAddresses libs env w includeSpent with
  | none => none
  | some [] => if env.strayIsNull then some (false, w) else none
  | some addrs =>
    let (ret, res) := refreshReply libs env w addrs
    if ret = 0 then some (true, { w with unspent := res.entries.foldl refreshEntry w.unspent })
    else some (true, w)

/-- `wallet_balance`. -/
def walletBalance (w : Wallet) : Option (UInt64 × Wallet) :=
  (walletRefresh libs env w false).map fun (_, w) => (unspentOutputsBalance w.unspent, w)

/-- `wallet_receive_address`. -/
def walletReceiveAddress (w : Wallet) : Wallet × Address :=
  let (am, addr) := amGetLastUnspentAddress libs.sodium w.addrManager
  ({ w with addrManager := am }, addr)

/-- `wallet_new_receive_address`. -/
def walletNewReceiveAddress (w : Wallet) : Wallet × Address :=
  let (am, addr) := amGetNewAddress libs.sodium w.addrManager
  ({ w with addrManager := am }, addr)

/-- `wallet_remainder_address`. -/
def walletRemainderAddress (w : Wallet) : Wallet × Address :=
  let (am, addr) := amGetFirstUnspentAddress libs.sodium w.addrManager
  ({ w with addrManager := am }, addr)

/-- The loop body of `wallet_init` for one address. -/
def initEntry (seed : Seed) (firstUnspent : UInt64) (table : UnspentOutputs) (i : UInt64) :
    UnspentOutputs :=
  let addr := addressGet libs.sodium seed i
  let table := (unspentOutputsAdd table addr i outputIdsInit).2
  if i < firstUnspent then unspentOutputsSetSpent table addr true else table

/-- The wallet which `wallet_init` sets up before it asks the node. -/
def walletInitLocal (url : List Byte) (port : UInt16) (seed : Seed)
    (lastAddr firstUnspent lastUnspent : UInt64) : Option Wallet :=
  let addrMask := (indicesBelow 0 firstUnspent).foldl (fun mask i => (bitmaskOp true mask i .set).2)
    bitmaskNew
  let am := amNew seed lastAddr (some addrMask)
  (indicesUpTo 0 lastAddr).map fun indices =>
    { endpoint := ⟨url, port⟩
      addrManager := { am with
        firstUnspentIdx := firstUnspent, lastUnspentIdx := lastUnspent, lastAddrIndex := lastAddr }
      unspent := indices.foldl (initEntry libs seed firstUnspent) unspentOutputsInit }

/-- `wallet_init` with a given seed; the address list of its refresh is never empty. -/
def walletInit (url : List Byte) (port : UInt16) (seed : Seed)
    (lastAddr firstUnspent lastUnspent : UInt64) : Option Wallet :=
  (walletInitLocal libs url port seed lastAddr firstUnspent lastUnspent).bind fun w =>
    (walletRefresh libs env w true).map Prod.snd

/-- What a refresh does: it leaves the wallet alone, or it applies the entries of the reply to the
addresses asked for. -/
theorem walletRefresh_cases {w w' : Wallet} {includeSpent ret : Bool}
    (h : walletRefresh libs env w includeSpent = some (ret, w')) :
    w' = w ∨ ∃ addrs, refreshAddresses libs env w includeSpent = some addrs ∧
      (refreshReply libs env w addrs).1 = 0 ∧
      w' = { w with unspent := (refreshReply libs env w addrs).2.entries.foldl refreshEntry w.unspent } := by
  unfold walletRefresh at h
  split at h
  · simp at h
  · split at h
    · exact Or.inl (Prod.mk.inj (Option.some.inj h)).2.symm
    · simp at h
  · next addrs _ haddrs =>
    dsimp only at h
    split at h
    · next hcode => exact Or.inr ⟨addrs, haddrs, hcode, (Prod.mk.inj (Option.some.inj h)).2.symm⟩
    · exact Or.inl (Prod.mk.inj (Option.some.inj h)).2.symm

/-- A refresh changes the table of unspent outputs at most. -/
theorem walletRefresh_eta {w w' : Wallet} {includeSpent ret : Bool}
    (h : walletRefresh libs env w includeSpent = some (ret, w')) :
    w' = { w with unspent := w'.unspent } := by
  rcases walletRefresh_cases libs env h with rfl | ⟨addrs, -, -, rfl⟩ <;> rfl

/-- A refresh does not touch the address manager. -/
theorem addrManager_walletRefresh {w w' : Wallet} {includeSpent ret : Bool}
    (h : walletRefresh libs env w includeSpent = some (ret, w')) : w'.addrManager = w.addrManager := by
  rw [walletRefresh_eta libs env h]

/-- Applying one address of a reply changes no spent flag. -/
theorem unspentOutputsGetSpent_refreshEntry (table : UnspentOutputs) (unspent : UnspentOutputEntry)
    (addr : Address) :
    unspentOutputsGetSpent (refreshEntry table unspent) addr = unspentOutputsGetSpent table addr := by
  unfold refreshEntry
  cases hfind : unspentOutputsFind table unspent.addr with
  | none => exact unspentOutputsGetSpent_add table _ _ _ addr
  | some elm =>
    dsimp only
    rw [unspentOutputsGetSpent_setSpent, unspentOutputsGetSpent_update]
    by_cases h : unspent.addr = addr
    · subst h
      have hfound : table.find unspent.addr = some elm := hfind
      rw [if_pos rfl, unspentOutputsGetSpent, hfind, unspentOutputsUpdate, InsertionTable.find_modify,
        if_pos rfl, hfound, Option.map_some, Option.isSome_some, Bool.true_and]
    · rw [if_neg h]

/-- A refresh changes no spent flag. -/
theorem unspentOutputsGetSpent_walletRefresh {w w' : Wallet} {includeSpent ret : Bool}
    (h : walletRefresh libs env w includeSpent = some (ret, w')) (addr : Address) :
    unspentOutputsGetSpent w'.unspent addr = unspentOutputsGetSpent w.unspent addr := by
  rcases walletRefresh_cases libs env h with rfl | ⟨addrs, -, -, rfl⟩
  · rfl
  · generalize (refreshReply libs env w addrs).2.entries = entries
    generalize w.unspent = table
    induction entries generalizing table with
    | nil => rfl
    | cons unspent rest ih =>
      rw [List.foldl_cons, ih, unspentOutputsGetSpent_refreshEntry]

end Goshimmer
