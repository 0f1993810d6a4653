import Goshimmer.Core.Transaction
import Mathlib.Algebra.Order.BigOperators.Group.List
import Mathlib.Algebra.Order.Group.Nat

/-!
# The bytes of the transaction essence

The layout is counts and items: the number of inputs and the inputs, the number of outputs and,
for each output, its address, its number of balances and the balances, then an empty payload.
The two passes of `tx_essence` agree on it: the first computes exactly its length and the
second fills a block of that length with exactly these bytes, without writing past the end.
Because every list stands behind its count, the layout determines the inputs and the payments.

`size_t` and `uint32_t` are taken with their wrap-around. A transaction whose counts fit their
fields and which fits the address space cannot make either of them wrap.
-/

namespace Goshimmer

/-- The count field in front of a list. -/
def encodeCount (n : ℕ) : List Byte := memoryImage 4 (UInt32.ofNat n).toNat

/-- The bytes of a balance: its value, then its colour. -/
def encodeBalance (balance : Balance) : List Byte :=
  memoryImage 8 balance.value.toUInt64.toNat ++ balance.color.val

/-- What an output pays: its address and its balances. The index is not part of the message. -/
def TxOutput.payment (out : TxOutput) : Address × List Balance := (out.address, out.balances)

/-- The bytes of a payment. -/
def encodePayment (payment : Address × List Balance) : List Byte :=
  payment.1.val ++ (encodeCount payment.2.length ++ payment.2.flatMap encodeBalance)

/-- The layout of the essence. -/
def encodeEssence (tx : Transaction) : List Byte :=
  (encodeCount tx.inputs.length ++ tx.inputs.flatMap Subtype.val) ++
    (encodeCount tx.outputs.length ++ (tx.outputs.map TxOutput.payment).flatMap encodePayment) ++
    List.replicate 4 0

/-- Every count fits the 32-bit field in front of its list. -/
structure Transaction.CountsFit (tx : Transaction) : Prop where
  inputs : tx.inputs.length < 2 ^ 32
  outputs : tx.outputs.length < 2 ^ 32
  balances : ∀ out ∈ tx.outputs, out.balances.length < 2 ^ 32

/-- The bytes which the transaction itself occupies: `sizeof(transaction_t)`, 65 for each input,
`sizeof(tx_output_t)` for each output and `sizeof(balance_t)` for each of its balances. -/
def Transaction.footprint (tx : Transaction) : ℕ :=
  32 + 65 * tx.inputs.length + (tx.outputs.map fun out => 56 + 40 * out.balances.length).sum

/-- The transaction exists as a 64-bit program's data. -/
def Transaction.InAddressSpace (tx : Transaction) : Prop := tx.footprint < 2 ^ 64

/-! ## The length -/

/-- A count field has four bytes. -/
@[simp] theorem encodeCount_length (n : ℕ) : (encodeCount n).length = 4 := memoryImage_length _ _

/-- A balance has forty bytes. -/
@[simp] theorem encodeBalance_length (balance : Balance) : (encodeBalance balance).length = 40 := by
  rw [encodeBalance, List.length_append, memoryImage_length, balance.color.property]

/-- The bytes of a payment grow with its balances. -/
theorem encodePayment_length (payment : Address × List Balance) :
    (encodePayment payment).length = 37 + 40 * payment.2.length := by
  have hbalances : (payment.2.map fun b => (encodeBalance b).length).sum = 40 * payment.2.length := by
    simp [Nat.mul_comm]
  rw [encodePayment, List.length_append, List.length_append, List.length_flatMap, hbalances,
    payment.1.property, encodeCount_length]
  omega

/-- The length of the layout. -/
theorem encodeEssence_length (tx : Transaction) :
    (encodeEssence tx).length =
      12 + 65 * tx.inputs.length + (tx.outputs.map fun out => 37 + 40 * out.balances.length).sum := by
  have hinputs : (tx.inputs.map fun input => input.val.length).sum = 65 * tx.inputs.length := by
    have hconst : (fun input : OutputId => input.val.length) = fun _ => 65 :=
      funext fun input => input.property
    simp [hconst, Nat.mul_comm]
  have houtputs : ((tx.outputs.map TxOutput.payment).map fun p => (encodePayment p).length).sum =
      (tx.outputs.map fun out => 37 + 40 * out.balances.length).sum := by
    simp only [List.map_map, Function.comp_def, encodePayment_length, TxOutput.payment]
  simp only [encodeEssence, List.length_append, List.length_flatMap, encodeCount_length,
    List.length_replicate, hinputs, houtputs]
  omega

/-- The layout needs no more memory than the transaction itself. -/
theorem encodeEssence_length_le_footprint (tx : Transaction) :
    (encodeEssence tx).length ≤ tx.footprint := by
  have houtputs : (tx.outputs.map fun out => 37 + 40 * out.balances.length).sum ≤
      (tx.outputs.map fun out => 56 + 40 * out.balances.length).sum := by
    refine List.sum_le_sum fun out _ => ?_
    omega
  rw [encodeEssence_length, Transaction.footprint]
  omega

/-- The first pass computes the length of the layout, modulo the size of `size_t`. -/
theorem essenceLength_eq (tx : Transaction) :
    essenceLength tx = UInt64.ofNat (encodeEssence tx).length := by
  have hfold : ∀ (outs : List TxOutput) (n : ℕ),
      outs.foldl (fun len out => len + 33 + 4 + UInt64.ofNat out.balances.length * (8 + 32))
          (UInt64.ofNat n) =
        UInt64.ofNat (n + (outs.map fun out => 37 + 40 * out.balances.length).sum) := by
    intro outs
    induction outs with
    | nil => intro n; rfl
    | cons out outs ih =>
      intro n
      have hstep : UInt64.ofNat n + 33 + 4 + UInt64.ofNat out.balances.length * (8 + 32) =
          UInt64.ofNat (n + (37 + 40 * out.balances.length)) := by
        rw [Nat.mul_comm, UInt64.ofNat_add, UInt64.ofNat_add, UInt64.ofNat_mul, ← add_assoc,
          add_assoc (UInt64.ofNat n)]
        rfl
      rw [List.foldl_cons, hstep, ih, List.map_cons, List.sum_cons, Nat.add_assoc]
  have hinputs : (4 : UInt64) + UInt64.ofNat tx.inputs.length * 65 + 4 =
      UInt64.ofNat (8 + 65 * tx.inputs.length) := by
    rw [UInt64.ofNat_add, Nat.mul_comm, UInt64.ofNat_mul, add_right_comm]
    rfl
  have htotal : 12 + 65 * tx.inputs.length + (tx.outputs.map fun out => 37 + 40 * out.balances.length).sum =
      8 + 65 * tx.inputs.length + (tx.outputs.map fun out => 37 + 40 * out.balances.length).sum + 4 := by
    omega
  rw [encodeEssence_length, htotal, UInt64.ofNat_add, ← hfold, ← hinputs]
  rfl

/-- For a transaction in the address space the first pass does not wrap. -/
theorem essenceLength_toNat {tx : Transaction} (h : tx.InAddressSpace) :
    (essenceLength tx).toNat = (encodeEssence tx).length := by
  rw [essenceLength_eq]
  exact UInt64.toNat_ofNat_of_lt' ((encodeEssence_length_le_footprint tx).trans_lt h)

/-! ## The second pass -/

/-- Writing an output appends the bytes of its payment. -/
theorem filled_putOutput {capacity : ℕ} (w : BlockWriter Byte) (done : List Byte) (out : TxOutput)
    (h : w.Filled capacity done)
    (hfit : done.length + (encodePayment out.payment).length ≤ capacity) :
    (putOutput w out).Filled capacity (done ++ encodePayment out.payment) := by
  simp only [encodePayment, TxOutput.payment, List.length_append] at hfit
  have haddress := h.put out.address.val (by omega)
  have hcount := haddress.put (encodeCount out.balances.length)
    (by rw [List.length_append]; omega)
  have hbalances := hcount.foldl putBalance encodeBalance
    (fun w done balance hw hroom => by
      rw [encodeBalance, List.length_append] at hroom
      have hvalue := hw.put (memoryImage 8 balance.value.toUInt64.toNat) (by omega)
      have hcolor := hvalue.put balance.color.val (by rw [List.length_append]; omega)
      rwa [List.append_assoc] at hcolor)
    out.balances (by simp only [List.length_append]; omega)
  change (out.balances.foldl putBalance
    ((w.put out.address.val).put (encodeCount out.balances.length))).Filled capacity _
  simpa only [encodePayment, TxOutput.payment, List.append_assoc] using hbalances

/-- The second pass fills a block of the right size with exactly the layout. -/
theorem filled_essenceWriter (tx : Transaction) (block : List Byte)
    (hlength : block.length = (encodeEssence tx).length) (hsize : block.length < 2 ^ 64) :
    (essenceWriter block tx).Filled block.length (encodeEssence tx) := by
  simp only [encodeEssence, List.length_append] at hlength
  have hinputCount := (BlockWriter.filled_start block hsize).put (encodeCount tx.inputs.length)
    (by rw [List.length_nil]; omega)
  have hinputs := hinputCount.foldl (fun w (b : OutputId) => w.put b.val) Subtype.val
    (fun w done b hw hroom => hw.put b.val hroom) tx.inputs
    (by simp only [List.length_append, List.length_nil]; omega)
  have houtputCount := hinputs.put (encodeCount tx.outputs.length)
    (by simp only [List.length_append, List.length_nil]; omega)
  have houtputs := houtputCount.foldl putOutput (fun out => encodePayment out.payment)
    filled_putOutput tx.outputs
    (by
      rw [List.flatMap_map] at hlength
      simp only [List.length_append, List.length_nil]
      omega)
  have hpayload := houtputs.put (List.replicate 4 0)
    (by
      rw [List.flatMap_map] at hlength
      simp only [List.length_append, List.length_nil]
      omega)
  change ((tx.outputs.foldl putOutput
    ((tx.inputs.foldl (fun w b => w.put b.val)
      ((BlockWriter.start block).put (encodeCount tx.inputs.length))).put
        (encodeCount tx.outputs.length))).put (List.replicate 4 0)).Filled block.length _
  rw [encodeEssence, List.flatMap_map]
  simpa only [List.nil_append, List.append_assoc] using hpayload

/-- On a little-endian host with enough memory the essence is the layout. -/
theorem txEssence_eq {tx : Transaction} (h : tx.InAddressSpace) {host : Host}
    (hendian : host.littleEndian = true) (halloc : host.alloc.granted = true) :
    txEssence host tx = some ⟨encodeEssence tx, essenceLength tx, essenceLength tx⟩ := by
  have hlength := essenceLength_toNat h
  have hblock : (host.alloc.block (essenceLength tx).toNat).length = (encodeEssence tx).length := by
    rw [Allocation.block_length, hlength]
  have hsize : (encodeEssence tx).length < 2 ^ 64 := (encodeEssence_length_le_footprint tx).trans_lt h
  have hfilled := filled_essenceWriter tx _ hblock (by rwa [hblock])
  simp only [txEssence, hendian, halloc, if_true]
  rw [hfilled.block_eq_of_length hblock.symm]

/-! ## Independence of the allocator -/

/-- Writing an output keeps two writers in agreement. -/
theorem agree_putOutput {w w' : BlockWriter Byte} {capacity written : ℕ}
    (h : w.Agree w' capacity written) (out : TxOutput) :
    (putOutput w out).Agree (putOutput w' out) capacity
      (written + (encodePayment out.payment).length) := by
  have hbalances := ((h.put out.address.val).put (encodeCount out.balances.length)).foldl putBalance
    (fun balance => (encodeBalance balance).length)
    (fun w w' written balance hw => by
      have hput := (hw.put (memoryImage 8 balance.value.toUInt64.toNat)).put balance.color.val
      rwa [Nat.add_assoc, ← List.length_append] at hput)
    out.balances
  have hlength : (encodePayment out.payment).length = out.address.val.length +
      (encodeCount out.balances.length).length +
        (out.balances.map fun balance => (encodeBalance balance).length).sum := by
    simp only [encodePayment, TxOutput.payment, List.length_append, List.length_flatMap, Nat.add_assoc]
  rw [hlength, ← Nat.add_assoc, ← Nat.add_assoc]
  exact hbalances

/-- The second pass writes the same bytes into any two blocks of the computed size. -/
theorem agree_essenceWriter (tx : Transaction) {block block' : List Byte} {capacity : ℕ}
    (h : block.length = capacity) (h' : block'.length = capacity) (hlt : capacity < 2 ^ 64) :
    (essenceWriter block tx).Agree (essenceWriter block' tx) capacity (encodeEssence tx).length := by
  have hinputs := ((BlockWriter.agree_start h h' hlt).put (encodeCount tx.inputs.length)).foldl
    (fun w (b : OutputId) => w.put b.val) (fun b => b.val.length) (fun _ _ _ b hw => hw.put b.val)
    tx.inputs
  have houtputs := (hinputs.put (encodeCount tx.outputs.length)).foldl putOutput
    (fun out => (encodePayment out.payment).length) (fun _ _ _ out hw => agree_putOutput hw out)
    tx.outputs
  have hpayload := houtputs.put (List.replicate 4 (0 : Byte))
  have htotal : (encodeEssence tx).length = 0 + (encodeCount tx.inputs.length).length +
      (tx.inputs.map fun b => b.val.length).sum + (encodeCount tx.outputs.length).length +
        (tx.outputs.map fun out => (encodePayment out.payment).length).sum +
          (List.replicate 4 (0 : Byte)).length := by
    simp only [encodeEssence, List.length_append, List.length_flatMap, List.map_map,
      Function.comp_def, Nat.zero_add, Nat.add_assoc]
  rw [htotal]
  exact hpayload

/-- The essence exists exactly on a little-endian host which grants the block. -/
theorem txEssence_isSome_iff (host : Host) (tx : Transaction) :
    (txEssence host tx).isSome ↔ host.alloc.granted = true ∧ host.littleEndian = true := by
  unfold txEssence
  cases host.alloc.granted <;> cases host.littleEndian <;> simp

/-- No indeterminate byte of the allocated block reaches the essence: two hosts on which it can be
computed agree on it. -/
theorem txEssence_congr {host host' : Host} {tx : Transaction} (h : (txEssence host tx).isSome)
    (h' : (txEssence host' tx).isSome) : txEssence host tx = txEssence host' tx := by
  obtain ⟨hgranted, hendian⟩ := (txEssence_isSome_iff host tx).mp h
  obtain ⟨hgranted', hendian'⟩ := (txEssence_isSome_iff host' tx).mp h'
  have hagree := agree_essenceWriter tx (host.alloc.block_length (essenceLength tx).toNat)
    (host'.alloc.block_length (essenceLength tx).toNat) (UInt64.toNat_lt _)
  have hwritten : (essenceLength tx).toNat ≤ (encodeEssence tx).length := by
    rw [essenceLength_eq, UInt64.toNat_ofNat']
    exact Nat.mod_le _ _
  simp only [txEssence, hgranted, hendian, hgranted', hendian', if_true, hagree.block_eq hwritten]

/-! ## Unambiguity -/

/-- A count field is self-delimiting for counts below 2^32. -/
theorem selfDelimiting_encodeCount : SelfDelimitingOn (· < 2 ^ 32) encodeCount := by
  refine SelfDelimitingOn.of_fixedWidth encodeCount_length fun n m hn hm h => ?_
  have hnat := memoryImage_inj (UInt32.toNat_lt _) (UInt32.toNat_lt _) h
  rwa [UInt32.toNat_ofNat_of_lt' hn, UInt32.toNat_ofNat_of_lt' hm] at hnat

/-- A fixed-size byte array is self-delimiting. -/
theorem selfDelimiting_bytes (n : ℕ) :
    SelfDelimitingOn (fun _ : Bytes n => True) (fun bytes => bytes.val) :=
  SelfDelimitingOn.of_fixedWidth (fun bytes => bytes.property) fun _ _ _ _ h => Subtype.ext h

/-- A signed 64-bit value is self-delimiting. -/
theorem selfDelimiting_value :
    SelfDelimitingOn (fun _ : Int64 => True) (fun value => memoryImage 8 value.toUInt64.toNat) := by
  refine SelfDelimitingOn.of_fixedWidth (fun _ => memoryImage_length _ _) fun v w _ _ h => ?_
  have hnat := memoryImage_inj (UInt64.toNat_lt _) (UInt64.toNat_lt _) h
  exact congrArg UInt64.toInt64 (UInt64.toNat_inj.mp hnat)

/-- A balance is self-delimiting. -/
theorem selfDelimiting_encodeBalance : SelfDelimitingOn (fun _ : Balance => True) encodeBalance := by
  have hview : Function.Injective fun b : Balance => (b.value, b.color) := by
    intro b c h
    cases b
    cases c
    simpa using h
  intro b c _ _ r s h
  exact (selfDelimiting_value.prod (selfDelimiting_bytes 32)).comap hview ⟨trivial, trivial⟩
    ⟨trivial, trivial⟩ h

/-- A payment with a representable number of balances is self-delimiting. -/
theorem selfDelimiting_encodePayment :
    SelfDelimitingOn (fun p : Address × List Balance => p.2.length < 2 ^ 32) encodePayment := by
  intro p q hp hq r s h
  exact (selfDelimiting_bytes 33).prod (selfDelimiting_encodeCount.countPrefixed selfDelimiting_encodeBalance)
    ⟨trivial, hp, fun _ _ => trivial⟩ ⟨trivial, hq, fun _ _ => trivial⟩ h

/-- The layout determines the inputs and the payments. -/
theorem encodeEssence_inj {first second : Transaction} (hfirst : first.CountsFit)
    (hsecond : second.CountsFit) (h : encodeEssence first = encodeEssence second) :
    first.inputs = second.inputs ∧
      first.outputs.map TxOutput.payment = second.outputs.map TxOutput.payment := by
  have hinputs := selfDelimiting_encodeCount.countPrefixed (selfDelimiting_bytes (33 + 32))
  have houtputs := selfDelimiting_encodeCount.countPrefixed selfDelimiting_encodePayment
  have hadmitted : ∀ tx : Transaction, tx.CountsFit →
      (tx.inputs.length < 2 ^ 32 ∧ ∀ input ∈ tx.inputs, True) ∧
        (tx.outputs.map TxOutput.payment).length < 2 ^ 32 ∧
          ∀ p ∈ tx.outputs.map TxOutput.payment, p.2.length < 2 ^ 32 := by
    intro tx htx
    refine ⟨⟨htx.inputs, fun _ _ => trivial⟩, by simpa using htx.outputs, fun p hp => ?_⟩
    obtain ⟨out, hout, rfl⟩ := List.mem_map.mp hp
    exact htx.balances out hout
  have hcount : ∀ tx : Transaction, tx.outputs.length = (tx.outputs.map TxOutput.payment).length :=
    fun tx => (List.length_map _).symm
  rw [encodeEssence, encodeEssence, hcount first, hcount second] at h
  have hpair := (hinputs.prod houtputs (hadmitted first hfirst) (hadmitted second hsecond)
    (a := (first.inputs, first.outputs.map TxOutput.payment))
    (b := (second.inputs, second.outputs.map TxOutput.payment)) h).1
  exact ⟨congrArg Prod.fst hpair, congrArg Prod.snd hpair⟩

/-- The two passes agree and the essence is unambiguous: the running offset ends at the computed
length, every copy stays inside the block, and transactions with equal essences have the same
inputs, the same output addresses and the same balances under each output. -/
theorem txEssence_exact_and_unambiguous (tx : Transaction) (hcounts : tx.CountsFit)
    (hmemory : tx.InAddressSpace) (alloc : Allocation) (halloc : alloc.granted = true) :
    (essenceWriter (alloc.block (essenceLength tx).toNat) tx).offset = essenceLength tx ∧
      (∀ copy ∈ (essenceWriter (alloc.block (essenceLength tx).toNat) tx).log,
        copy.1.toNat + copy.2 ≤ (alloc.block (essenceLength tx).toNat).length) ∧
      ∀ (other : Transaction) (alloc' : Allocation), other.CountsFit → other.InAddressSpace →
        alloc'.granted = true →
          (txEssence ⟨true, alloc⟩ tx).map ByteBuf.contents =
            (txEssence ⟨true, alloc'⟩ other).map ByteBuf.contents →
          tx.inputs = other.inputs ∧
            tx.outputs.map TxOutput.payment = other.outputs.map TxOutput.payment := by
  have hlength := essenceLength_toNat hmemory
  have hblock : (alloc.block (essenceLength tx).toNat).length = (encodeEssence tx).length := by
    rw [Allocation.block_length, hlength]
  have hsize : (encodeEssence tx).length < 2 ^ 64 :=
    (encodeEssence_length_le_footprint tx).trans_lt hmemory
  have hfilled := filled_essenceWriter tx _ hblock (by rwa [hblock])
  refine ⟨?_, hfilled.inBounds, ?_⟩
  · rw [← UInt64.toNat_inj, hfilled.offset_eq, hlength]
  · intro other alloc' hcounts' hmemory' halloc' heq
    rw [txEssence_eq hmemory rfl halloc, txEssence_eq hmemory' rfl halloc'] at heq
    have hcontents : ∀ t : Transaction, t.InAddressSpace →
        (⟨encodeEssence t, essenceLength t, essenceLength t⟩ : ByteBuf).contents = encodeEssence t :=
      fun t ht => by rw [ByteBuf.contents, essenceLength_toNat ht, List.take_length]
    simp only [Option.map_some, Option.some.injEq, hcontents tx hmemory, hcontents other hmemory'] at heq
    exact encodeEssence_inj hcounts hcounts' heq

/-- A transaction with one input which pays five plain tokens. -/
def sampleTransaction : Transaction where
  inputs := [txOutputId (Bytes.zero 33) (Bytes.zero 32)]
  outputs := [⟨0, Bytes.zero 33, [⟨5, Bytes.zero 32⟩]⟩]
  signatures := edSignaturesInit

/-- The sample transaction meets the size conditions. -/
theorem txEssence_exact_and_unambiguous_sample :
    (essenceWriter ((⟨true, fun _ => 0⟩ : Allocation).block (essenceLength sampleTransaction).toNat)
      sampleTransaction).offset = essenceLength sampleTransaction :=
  (txEssence_exact_and_unambiguous sampleTransaction
    ⟨by decide, by decide, by decide⟩ (by unfold Transaction.InAddressSpace; decide)
    ⟨true, fun _ => 0⟩ rfl).1

end Goshimmer
