import Goshimmer.Client.Verdict
import Goshimmer.Wallet.Consumption

/-!
# What a refresh reports

A refresh should return true only after it applied a well-formed reply, and false with the table
as it was when the exchange fails or the reply is not a document or carries an error. But the
variable it returns is only touched in front of the exchange, so it returns true as soon as there
is an address to ask for. The report is right exactly when there is none, or when the reply is
well formed after all.
-/

namespace Goshimmer

variable (libs : Libraries) (env : Env)

/-- The body of the reply to a refresh, when the exchange succeeds. -/
def refreshBody (w : Wallet) (addrs : List AddressT) : Option (List Byte) :=
  (unspentOutputsRequest libs addrs).bind fun req =>
    env.node (w.endpoint.request "value/unspentOutputs" req)

/-- A reply is a document which carries no error message. -/
def AnswersWithoutError (body : Option (List Byte)) : Prop :=
  ∃ text jsonObj, body = some text ∧ libs.cjson.parseBody text = some jsonObj ∧ deserError jsonObj = none

/-- A reply is a well-formed document which carries no error message. -/
def AnswersWellFormed (body : Option (List Byte)) : Prop :=
  ∃ text jsonObj, body = some text ∧ libs.cjson.parseBody text = some jsonObj ∧
    deserError jsonObj = none ∧ WellFormedReply jsonObj

/-- The reply to a refresh, decoded and applied to the table of unspent outputs. -/
def AppliedReply (w w' : Wallet) (addrs : List AddressT) : Prop :=
  w'.unspent = (refreshReply libs env w addrs).2.entries.foldl refreshEntry w.unspent

/-- A refresh reports what happened: it returns true only when a well-formed reply was applied, and
false with the table as it was when the exchange failed or the reply was no document or an error. -/
def ReportsRefresh (w : Wallet) (addrs : List AddressT) (ret : Bool) (w' : Wallet) : Prop :=
  (ret = true → AnswersWellFormed libs (refreshBody libs env w addrs) ∧ AppliedReply libs env w w' addrs) ∧
    (¬ AnswersWithoutError libs (refreshBody libs env w addrs) → ret = false ∧ w'.unspent = w.unspent)

/-- The reply to a refresh is what the decoder makes of the body. -/
theorem refreshReply_of_body {w : Wallet} {addrs : List AddressT} {text : List Byte}
    (h : refreshBody libs env w addrs = some text) :
    refreshReply libs env w addrs = deserUnspentOutputs libs env.past text unspentOutputsInit := by
  obtain ⟨req, hreq, hnode⟩ := Option.bind_eq_some_iff.mp h
  unfold refreshReply getUnspentOutputs
  simp only [hreq, hnode]

/-- A well-formed reply is decoded with the code 0. -/
theorem refreshReply_of_wellFormed {w : Wallet} {addrs : List AddressT}
    (h : AnswersWellFormed libs (refreshBody libs env w addrs)) :
    (refreshReply libs env w addrs).1 = 0 := by
  obtain ⟨text, jsonObj, hbody, hparse, herror, hformed⟩ := h
  rw [refreshReply_of_body libs env hbody,
    deserUnspentOutputs_eq_zero_iff libs env.past hparse herror unspentOutputsInit]
  exact Or.inl hformed

/-- A refresh reports what happened exactly when there is no address to ask for or the reply is
well formed. -/
theorem walletRefresh_reports_iff {w w' : Wallet} {includeSpent ret : Bool}
    (h : walletRefresh libs env w includeSpent = some (ret, w')) {addrs : List AddressT}
    (haddrs : refreshAddresses libs env w includeSpent = some addrs) :
    ReportsRefresh libs env w addrs ret w' ↔
      addrs = [] ∨ AnswersWellFormed libs (refreshBody libs env w addrs) := by
  unfold walletRefresh at h
  rw [haddrs] at h
  cases addrs with
  | nil =>
    dsimp only at h
    split at h
    · obtain ⟨rfl, rfl⟩ := Prod.mk.inj (Option.some.inj h)
      exact ⟨fun _ => Or.inl rfl, fun _ => ⟨fun hret => Bool.noConfusion hret, fun _ => ⟨rfl, rfl⟩⟩⟩
    · simp at h
  | cons addr rest =>
    dsimp only at h
    have hret : ret = true := by
      split at h <;> exact (Prod.mk.inj (Option.some.inj h)).1.symm
    constructor
    · intro hreports
      exact Or.inr (hreports.1 hret).1
    · intro hcondition
      have hformed := hcondition.resolve_left (List.cons_ne_nil addr rest)
      have hanswered : AnswersWithoutError libs (refreshBody libs env w (addr :: rest)) := by
        obtain ⟨text, jsonObj, hbody, hparse, herror, -⟩ := hformed
        exact ⟨text, jsonObj, hbody, hparse, herror⟩
      rw [if_pos (refreshReply_of_wellFormed libs env hformed)] at h
      have happlied := congrArg Wallet.unspent (Prod.mk.inj (Option.some.inj h)).2
      exact ⟨fun _ => ⟨hformed, happlied.symm⟩, fun hfailed => absurd hanswered hfailed⟩

/-- The addresses the small wallet asks for. -/
def smallAddresses : List AddressT := [⟨0, addressGet transparentSodium (Bytes.zero 32) 0⟩]

/-- The small wallet asks for its one address. -/
theorem refreshAddresses_small (ids : OutputIds) :
    refreshAddresses (sampleLibraries []) unreachable (smallWallet ids) false = some smallAddresses := by
  have haddrs : amUnspentAddresses transparentSodium unreachable.heap (amNew (Bytes.zero 32) 0 none) =
      some smallAddresses := by decide
  exact haddrs

/-- The characterisation for a node which cannot be reached. -/
theorem walletRefresh_reports_iff_unreachable :
    ReportsRefresh (sampleLibraries []) unreachable (smallWallet fivePlain) smallAddresses true
        (smallWallet fivePlain) ↔
      smallAddresses = [] ∨ AnswersWellFormed (sampleLibraries [])
        (refreshBody (sampleLibraries []) unreachable (smallWallet fivePlain) smallAddresses) :=
  walletRefresh_reports_iff (sampleLibraries []) unreachable (walletRefresh_unreachable fivePlain)
    (refreshAddresses_small fivePlain)

/-- A refresh through a node which cannot be reached returns true. -/
theorem walletRefresh_unreachable_reports_success :
    ¬ ∀ (libs : Libraries) (env : Env) (w w' : Wallet) (includeSpent ret : Bool) (addrs : List AddressT),
      walletRefresh libs env w includeSpent = some (ret, w') →
        refreshAddresses libs env w includeSpent = some addrs → ReportsRefresh libs env w addrs ret w' := by
  intro h
  have hreports := h (sampleLibraries []) unreachable (smallWallet fivePlain) (smallWallet fivePlain) false
    true smallAddresses (walletRefresh_unreachable fivePlain) (refreshAddresses_small fivePlain)
  obtain ⟨⟨text, jsonObj, hbody, hrest⟩, happlied⟩ := hreports.1 rfl
  obtain ⟨req, hreq, hnode⟩ := Option.bind_eq_some_iff.mp hbody
  simp [unreachable] at hnode

end Goshimmer
