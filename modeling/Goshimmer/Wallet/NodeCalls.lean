import Goshimmer.Client.StrayText
import Goshimmer.Wallet.Cursors

/-!
# Asking the node about itself and the faucet for tokens

`client/api/get_node_info.c`, `client/api/get_funds.c` and the two calls of `wallet/wallet.c` on them. Both
calls of the API drop the verdict of their decoder, so a caller is told of success by any reply. The wallet
reads the flag out of a local record which it never set, and prints an id out of one which it zeroed.
-/

namespace Goshimmer

/-- `res_node_info_t`. -/
structure ResNodeInfo where
  version : Bytes 32
  id : Bytes 64
  isSynced : Bool

/-- `res_get_funds_t`. -/
abbrev ResGetFunds := Bytes 96

variable (libs : Libraries)

/-- `deser_node_info`; a member which was read stays read when a later one is missing. -/
def deserNodeInfo (body : List Byte) (res : ResNodeInfo) : Int × ResNodeInfo :=
  match libs.cjson.parseBody body with
  | none => (-1, res)
  | some jsonObj =>
    match jsonGetString jsonObj "version" res.version with
    | (ret, version) =>
      if ret ≠ 0 then (-1, { res with version := version })
      else
        match jsonGetString jsonObj "identityID" res.id with
        | (ret, id) =>
          if ret ≠ 0 then (-1, { res with version := version, id := id })
          else
            match jsonGetBoolean jsonObj "synced" res.isSynced with
            | (ret, isSynced) => if ret ≠ 0 then (-1, ⟨version, id, isSynced⟩) else (ret, ⟨version, id, isSynced⟩)

/-- `get_node_info`. -/
def getNodeInfo (node : Node) (conf : TangleClientConf) (res : ResNodeInfo) : Int × ResNodeInfo :=
  match node (conf.request "info" []) with
  | none => (-1, res)
  -- the return code of the decoder is not looked at
  | some reply => (0, (deserNodeInfo libs reply res).2)

/-- `wallet_is_node_synced`; `stray` is what the local `info` holds without having been set. -/
def walletIsNodeSynced (node : Node) (w : Wallet) (stray : ResNodeInfo) : Bool :=
  match getNodeInfo libs node w.endpoint stray with
  | (ret, info) => if ret ≠ 0 then false else info.isSynced

/-- `request_builder` of `get_funds`. -/
def getFundsRequest (addr : Address) : Option (List Byte) :=
  libs.cjson.printUnformatted (.object [("address", .string (address2Base58 libs.base58 addr))])

/-- `deser_get_funds`. -/
def deserGetFunds (body : List Byte) (res : ResGetFunds) : Int × ResGetFunds :=
  match libs.cjson.parseBody body with
  | none => (-1, res)
  | some jsonObj =>
    match deserError jsonObj with
    | some _ => (-1, res)
    | none =>
      match jsonGetString jsonObj "id" res with
      | (ret, res) => if ret ≠ 0 then (-1, res) else (ret, res)

/-- `get_funds`. -/
def getFunds (node : Node) (conf : TangleClientConf) (addr : Address) (res : ResGetFunds) : Int × ResGetFunds :=
  match getFundsRequest libs addr with
  | none => (-1, res)
  | some req =>
    match node (conf.request "faucet" req) with
    | none => (-1, res)
    -- the return code of the decoder is not looked at
    | some reply => (0, (deserGetFunds libs reply res).2)

/-- `wallet_request_funds`: the code, the record whose text is printed, and the wallet. -/
def walletRequestFunds (node : Node) (w : Wallet) : Int × ResGetFunds × Wallet :=
  match walletReceiveAddress libs w with
  | (w, receiver) =>
    match getFunds libs node w.endpoint receiver (Bytes.zero 96) with
    | (ret, res) => (ret, res, w)

/-! ## The node's report about itself -/

/-- A document which says whether the node is synced, after a version and an identity. -/
def SaysSynced (jsonObj : CJson) (synced : Bool) : Prop :=
  ∃ version id, jsonObj.getObjectItemCaseSensitive "version" = some (.string version) ∧
    jsonObj.getObjectItemCaseSensitive "identityID" = some (.string id) ∧
    jsonObj.getObjectItemCaseSensitive "synced" = some (.bool synced)

/-- The node reports whether it is synced. -/
def ReportsSynced (node : Node) (conf : TangleClientConf) (synced : Bool) : Prop :=
  ∃ reply jsonObj, node (conf.request "info" []) = some reply ∧ libs.cjson.parseBody reply = some jsonObj ∧
    SaysSynced jsonObj synced

/-- Reading a flag succeeds exactly for a member which is one, and sets it then. -/
theorem jsonGetBoolean_cases (jsonObj : CJson) (key : String) (value : Bool) :
    (∃ flag, jsonObj.getObjectItemCaseSensitive key = some (.bool flag) ∧
      jsonGetBoolean jsonObj key value = (0, flag)) ∨
    ((∀ flag, jsonObj.getObjectItemCaseSensitive key ≠ some (.bool flag)) ∧
      jsonGetBoolean jsonObj key value = (-1, value)) := by
  unfold jsonGetBoolean
  split
  · next flag hitem => exact Or.inl ⟨flag, hitem, rfl⟩
  · next hother => exact Or.inr ⟨fun flag hitem => hother flag hitem, rfl⟩

/-- The flag after the decoder is the one of the document, or the one from before. -/
theorem isSynced_deserNodeInfo (body : List Byte) (res : ResNodeInfo) :
    (∃ jsonObj synced, libs.cjson.parseBody body = some jsonObj ∧ SaysSynced jsonObj synced ∧
      (deserNodeInfo libs body res).2.isSynced = synced) ∨
    ((∀ jsonObj synced, libs.cjson.parseBody body = some jsonObj → ¬ SaysSynced jsonObj synced) ∧
      (deserNodeInfo libs body res).2.isSynced = res.isSynced) := by
  unfold deserNodeInfo
  cases hparse : libs.cjson.parseBody body with
  | none => exact Or.inr ⟨by simp, rfl⟩
  | some jsonObj =>
    dsimp only
    by_cases hversion : (jsonGetString jsonObj "version" res.version).1 = 0
    · rw [if_neg (not_not.mpr hversion)]
      obtain ⟨version, hversion⟩ := (jsonGetString_eq_zero_iff _ _ _).mp hversion
      by_cases hid : (jsonGetString jsonObj "identityID" res.id).1 = 0
      · rw [if_neg (not_not.mpr hid)]
        obtain ⟨id, hid⟩ := (jsonGetString_eq_zero_iff _ _ _).mp hid
        obtain ⟨flag, hflag, hread⟩ | ⟨hnone, hread⟩ := jsonGetBoolean_cases jsonObj "synced" res.isSynced
        · refine Or.inl ⟨jsonObj, flag, rfl, ⟨version, id, hversion, hid, hflag⟩, ?_⟩
          rw [hread]
          rfl
        · refine Or.inr ⟨?_, by rw [hread]; rfl⟩
          intro other synced hother ⟨_, _, _, _, hflag⟩
          obtain rfl := Option.some.inj hother
          exact hnone synced hflag
      · refine Or.inr ⟨?_, by rw [if_pos hid]⟩
        intro other synced hother ⟨_, id, _, hmember, _⟩
        obtain rfl := Option.some.inj hother
        exact hid ((jsonGetString_eq_zero_iff _ _ _).mpr ⟨id, hmember⟩)
    · refine Or.inr ⟨?_, by rw [if_pos hversion]⟩
      intro other synced hother ⟨version, _, hmember, _, _⟩
      obtain rfl := Option.some.inj hother
      exact hversion ((jsonGetString_eq_zero_iff _ _ _).mpr ⟨version, hmember⟩)

/-- The verdict of the wallet about its node is determined by the node exactly when the exchange fails, where
it is no, or the reply is a document with a version, an identity and the flag, where it is the flag. Any
other reply leaves the verdict to memory which was never set. -/
theorem walletIsNodeSynced_determined_iff (node : Node) (w : Wallet) (verdict : Bool) :
    (∀ stray, walletIsNodeSynced libs node w stray = verdict) ↔
      (node (w.endpoint.request "info" []) = none ∧ verdict = false) ∨
        ReportsSynced libs node w.endpoint verdict := by
  unfold walletIsNodeSynced getNodeInfo ReportsSynced
  cases hnode : node (w.endpoint.request "info" []) with
  | none =>
    constructor
    · intro h
      exact Or.inl ⟨rfl, (h ⟨Bytes.zero 32, Bytes.zero 64, false⟩).symm⟩
    · rintro (⟨-, rfl⟩ | ⟨_, _, hreply, -⟩) stray
      · rfl
      · exact absurd hreply (by simp)
  | some reply =>
    constructor
    · intro h
      -- a record with the other flag is told apart, unless the document sets it
      have hother := h ⟨Bytes.zero 32, Bytes.zero 64, !verdict⟩
      dsimp only at hother
      rw [if_neg (not_not.mpr rfl)] at hother
      obtain ⟨jsonObj, synced, hparse, hsays, hread⟩ | ⟨-, hread⟩ :=
        isSynced_deserNodeInfo libs reply ⟨Bytes.zero 32, Bytes.zero 64, !verdict⟩
      · rw [hread] at hother
        rw [hother] at hsays
        exact Or.inr ⟨reply, jsonObj, rfl, hparse, hsays⟩
      · rw [hread] at hother
        exact absurd hother (Bool.not_ne_self verdict)
    · intro h stray
      obtain ⟨hnone, -⟩ | ⟨other, jsonObj, hsome, hparse, hsays⟩ := h
      · exact absurd hnone (by simp)
      · obtain rfl := Option.some.inj hsome
        dsimp only
        rw [if_neg (not_not.mpr rfl)]
        obtain ⟨found, synced, hfound, hsynced, hread⟩ | ⟨hnever, -⟩ := isSynced_deserNodeInfo libs reply stray
        · obtain rfl := Option.some.inj (hparse.symm.trans hfound)
          obtain ⟨_, _, -, -, hflag⟩ := hsays
          obtain ⟨_, _, -, -, hflag'⟩ := hsynced
          rw [hread]
          exact CJson.bool.inj (Option.some.inj (hflag'.symm.trans hflag))
        · exact absurd hsays (hnever jsonObj verdict hparse)

/-- A document which names the message, and is no error response. -/
def NamesMessage (jsonObj : CJson) (id : List Byte) : Prop :=
  deserError jsonObj = none ∧ jsonObj.getObjectItemCaseSensitive "id" = some (.string id)

/-- The faucet is asked for an address, and the node replies. -/
def FaucetReplies (node : Node) (conf : TangleClientConf) (addr : Address) (reply : List Byte) : Prop :=
  ∃ req, getFundsRequest libs addr = some req ∧ node (conf.request "faucet" req) = some reply

/-- The node replies with the id of the message of the faucet. -/
def FaucetNames (node : Node) (conf : TangleClientConf) (addr : Address) (id : List Byte) : Prop :=
  ∃ reply jsonObj, FaucetReplies libs node conf addr reply ∧ libs.cjson.parseBody reply = some jsonObj ∧
    NamesMessage jsonObj id

/-- The id after the decoder is the one of the document, cut to the buffer, or what was there before. -/
theorem deserGetFunds_cases (body : List Byte) (res : ResGetFunds) :
    (∃ jsonObj id, libs.cjson.parseBody body = some jsonObj ∧ NamesMessage jsonObj id ∧
      (deserGetFunds libs body res).2 = strncpy 96 id) ∨
    ((∀ jsonObj id, libs.cjson.parseBody body = some jsonObj → ¬ NamesMessage jsonObj id) ∧
      (deserGetFunds libs body res).2 = res) := by
  unfold deserGetFunds
  cases hparse : libs.cjson.parseBody body with
  | none => exact Or.inr ⟨by simp, rfl⟩
  | some jsonObj =>
    dsimp only
    cases herror : deserError jsonObj with
    | some msg =>
      refine Or.inr ⟨?_, rfl⟩
      intro other id hother ⟨hnone, _⟩
      obtain rfl := Option.some.inj hother
      rw [herror] at hnone
      exact absurd hnone (by simp)
    | none =>
      dsimp only
      by_cases hid : (jsonGetString jsonObj "id" res).1 = 0
      · rw [if_neg (not_not.mpr hid)]
        obtain ⟨id, hmember⟩ := (jsonGetString_eq_zero_iff _ _ _).mp hid
        exact Or.inl ⟨jsonObj, id, rfl, ⟨herror, hmember⟩, by rw [jsonGetString_of_text hmember]⟩
      · rw [if_pos hid]
        refine Or.inr ⟨?_, ?_⟩
        · intro other id hother ⟨_, hmember⟩
          obtain rfl := Option.some.inj hother
          exact hid ((jsonGetString_eq_zero_iff _ _ _).mpr ⟨id, hmember⟩)
        · unfold jsonGetString at hid ⊢
          split at hid
          · exact absurd rfl hid
          · rfl

/-- A text which was copied into a buffer is read off it exactly when it is shorter than the buffer. -/
theorem forall_cString_strncpy_iff (n : ℕ) (text read : List Byte) :
    (∀ past, cString past (strncpy n text) = read) ↔
      (text.takeWhile (· ≠ 0)).length < n ∧ text.takeWhile (· ≠ 0) = read := by
  constructor
  · intro h
    have hnul := ((forall_cString_iff _ _).mp h).1
    have hfits : (text.takeWhile (· ≠ 0)).length < n := by
      by_contra hlong
      have hcut : (strncpy n text).val = (text.takeWhile (· ≠ 0)).take n := by
        change (text.takeWhile (· ≠ 0) ++ List.replicate n 0).take n = _
        exact List.take_append_of_le_length (not_lt.mp hlong)
      rw [hcut] at hnul
      have hletter := List.mem_takeWhile_imp (p := fun c : Byte => decide (c ≠ 0)) (List.mem_of_mem_take hnul)
      simp at hletter
    exact ⟨hfits, (cString_strncpy [] hfits).symm.trans (h [])⟩
  · intro ⟨hfits, hread⟩ past
    rw [cString_strncpy past hfits, hread]

/-- The address which the faucet is asked for. -/
def fundsReceiver (w : Wallet) : Address := addressGet libs.sodium w.addrManager.seed w.addrManager.lastUnspentIdx

/-- Asking for the receive address does not move the endpoint, and the address is derived from the seed. -/
theorem walletReceiveAddress_eq (w : Wallet) :
    (walletReceiveAddress libs w).1.endpoint = w.endpoint ∧
      (walletReceiveAddress libs w).2 = fundsReceiver libs w := by
  refine ⟨rfl, ?_⟩
  rw [walletReceiveAddress, amGetLastUnspentAddress, amGetAddress_eq]
  rfl

/-- The call succeeds with what the decoder made of the reply, or fails with the zeroed record. -/
theorem walletRequestFunds_cases (node : Node) (w : Wallet) :
    (∃ reply, FaucetReplies libs node w.endpoint (fundsReceiver libs w) reply ∧
      (walletRequestFunds libs node w).1 = 0 ∧
      (walletRequestFunds libs node w).2.1 = (deserGetFunds libs reply (Bytes.zero 96)).2) ∨
    ((∀ reply, ¬ FaucetReplies libs node w.endpoint (fundsReceiver libs w) reply) ∧
      (walletRequestFunds libs node w).1 = -1 ∧ (walletRequestFunds libs node w).2.1 = Bytes.zero 96) := by
  obtain ⟨hendpoint, hreceiver⟩ := walletReceiveAddress_eq libs w
  simp only [walletRequestFunds, getFunds, hendpoint, hreceiver]
  cases hreq : getFundsRequest libs (fundsReceiver libs w) with
  | none =>
    refine Or.inr ⟨?_, rfl, rfl⟩
    intro reply ⟨req, hsome, _⟩
    rw [hreq] at hsome
    exact absurd hsome (by simp)
  | some req =>
    dsimp only
    cases hnode : node (w.endpoint.request "faucet" req) with
    | none =>
      refine Or.inr ⟨?_, rfl, rfl⟩
      intro reply ⟨other, hother, hreply⟩
      obtain rfl := Option.some.inj (hreq.symm.trans hother)
      rw [hnode] at hreply
      exact absurd hreply (by simp)
    | some reply => exact Or.inl ⟨reply, ⟨req, hreq, hnode⟩, rfl, rfl⟩

/-- The faucet is asked one request, so it has one reply. -/
theorem FaucetReplies.unique {node : Node} {conf : TangleClientConf} {addr : Address} {reply other : List Byte}
    (h : FaucetReplies libs node conf addr reply) (hother : FaucetReplies libs node conf addr other) :
    reply = other := by
  obtain ⟨req, hreq, hreply⟩ := h
  obtain ⟨req', hreq', hreply'⟩ := hother
  obtain rfl := Option.some.inj (hreq.symm.trans hreq')
  exact Option.some.inj (hreply.symm.trans hreply')

/-- Nothing is printed of the zeroed record. -/
theorem zeroed_read_iff {names : List Byte → Prop} (hnames : ∀ id, ¬ names id) (printed : List Byte) :
    (∀ past, cString past (Bytes.zero 96) = printed) ↔
      (∃ id, names id ∧ (id.takeWhile (· ≠ 0)).length < 96 ∧ id.takeWhile (· ≠ 0) = printed) ∨
      ((∀ id, ¬ names id) ∧ printed = []) := by
  have hempty : ∀ past, cString past (Bytes.zero 96) = [] := fun past => rfl
  constructor
  · intro h
    exact Or.inr ⟨hnames, (h []).symm.trans (hempty [])⟩
  · rintro (⟨id, hid, -⟩ | ⟨-, rfl⟩)
    · exact absurd hid (hnames id)
    · exact hempty

/-- What the caller of `wallet_request_funds` learns. The request carries the receive address of the wallet,
in a text which fits its buffer and decodes to the address. The code says that the node replied, whatever the
reply. What is printed is the id of the message when the reply names one which fits the record, nothing when
it names none, and depends on memory behind the record otherwise. -/
theorem walletRequestFunds_learns (hbase58 : libs.base58.Lawful) (node : Node) (w : Wallet) :
    ((address2Base58 libs.base58 (fundsReceiver libs w)).length < 48 ∧
      0 ∉ address2Base58 libs.base58 (fundsReceiver libs w) ∧
      ∀ old, addressFromBase58 libs.base58 (address2Base58 libs.base58 (fundsReceiver libs w)) old =
        (true, fundsReceiver libs w)) ∧
    ((walletRequestFunds libs node w).1 = 0 ↔
      ∃ reply, FaucetReplies libs node w.endpoint (fundsReceiver libs w) reply) ∧
    ∀ printed, (∀ past, cString past (walletRequestFunds libs node w).2.1 = printed) ↔
      (∃ id, FaucetNames libs node w.endpoint (fundsReceiver libs w) id ∧
        (id.takeWhile (· ≠ 0)).length < 96 ∧ id.takeWhile (· ≠ 0) = printed) ∨
      ((∀ id, ¬ FaucetNames libs node w.endpoint (fundsReceiver libs w) id) ∧ printed = []) := by
  have hfits := hbase58.length_le (fundsReceiver libs w).val
  rw [(fundsReceiver libs w).property] at hfits
  have htext := takeWhile_of_alphabet (hbase58.alphabet_of_b58enc (fundsReceiver libs w))
  refine ⟨⟨by rw [address2Base58]; omega, ?_, fun old => hbase58.inverts _ old⟩, ?_⟩
  · intro hnul
    have hletter := List.takeWhile_eq_self_iff.mp htext 0 hnul
    simp at hletter
  obtain ⟨reply, hreply, hcode, hres⟩ | ⟨hnever, hcode, hres⟩ := walletRequestFunds_cases libs node w
  · refine ⟨⟨fun _ => ⟨reply, hreply⟩, fun _ => hcode⟩, fun printed => ?_⟩
    rw [hres]
    obtain ⟨jsonObj, id, hparse, hnames, hread⟩ | ⟨hnone, hread⟩ := deserGetFunds_cases libs reply (Bytes.zero 96)
    · rw [hread, forall_cString_strncpy_iff]
      constructor
      · intro ⟨hfit, hprinted⟩
        exact Or.inl ⟨id, ⟨reply, jsonObj, hreply, hparse, hnames⟩, hfit, hprinted⟩
      · rintro (⟨other, ⟨reply', jsonObj', hreply', hparse', hnames'⟩, hfit, hprinted⟩ | ⟨hnone, -⟩)
        · obtain rfl := hreply.unique libs hreply'
          obtain rfl := Option.some.inj (hparse.symm.trans hparse')
          obtain rfl := CJson.string.inj (Option.some.inj (hnames.2.symm.trans hnames'.2))
          exact ⟨hfit, hprinted⟩
        · exact absurd ⟨reply, jsonObj, hreply, hparse, hnames⟩ (hnone id)
    · have hnames : ∀ id, ¬ FaucetNames libs node w.endpoint (fundsReceiver libs w) id := by
        intro id ⟨reply', jsonObj, hreply', hparse, hid⟩
        obtain rfl := hreply.unique libs hreply'
        exact hnone jsonObj id hparse hid
      rw [hread]
      exact zeroed_read_iff hnames printed
  · have hnames : ∀ id, ¬ FaucetNames libs node w.endpoint (fundsReceiver libs w) id := by
      intro id ⟨reply, _, hreply, _⟩
      exact hnever reply hreply
    refine ⟨⟨fun h => ?_, fun ⟨reply, hreply⟩ => absurd hreply (hnever reply)⟩, fun printed => ?_⟩
    · rw [hcode] at h
      exact absurd h (by decide)
    · rw [hres]
      exact zeroed_read_iff hnames printed

/-- A node which replies with an empty body: the code says success, and nothing is printed. -/
theorem walletRequestFunds_learns_emptyReply :
    (walletRequestFunds (sampleLibraries []) (fun _ => some []) (zeroSeedWallet 1 1 [] [])).1 = 0 ∧
      ∀ past, cString past
        (walletRequestFunds (sampleLibraries []) (fun _ => some []) (zeroSeedWallet 1 1 [] [])).2.1 = [] := by
  obtain ⟨-, hcode, hprinted⟩ :=
    walletRequestFunds_learns (sampleLibraries []) base58Lawful_sample (fun _ => some []) (zeroSeedWallet 1 1 [] [])
  refine ⟨hcode.mpr ⟨[], _, rfl, rfl⟩, (hprinted []).mpr (Or.inr ⟨?_, rfl⟩)⟩
  rintro id ⟨reply, jsonObj, ⟨_, _, hreply⟩, hparse, -⟩
  obtain rfl := Option.some.inj hreply
  exact absurd hparse (by simp [CJsonLib.parseBody])

end Goshimmer
