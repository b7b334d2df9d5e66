import CredentialSigning.Curve.Domain
import CredentialSigning.Proofs.Arithmetic.Primality
import Mathlib.NumberTheory.LucasLehmer
import Mathlib.Tactic.NormNum.Prime

/-! The field size and the order of the base point are prime on all three curves. -/

namespace CredentialSigning.Primality

def smallPrimes : List Nat :=
  [17, 29, 107, 229, 233, 311, 421, 599, 661, 1201, 3023, 3769, 17467, 37447, 78283, 155317,
    363557, 704251, 777241]

theorem prime_of_mem_smallPrimes : ∀ factor ∈ smallPrimes, factor.Prime := by
  simp only [smallPrimes, List.forall_mem_cons]
  norm_num

/-- The steps that lead to the five numbers that are not Mersenne numbers. -/
def curveSteps : List Step :=
  [⟨8463023, [37447]⟩, ⟨9350987, [1201, 229]⟩, ⟨19353437, [17467]⟩, ⟨187019741, [9350987]⟩,
    ⟨191039911, [155317]⟩, ⟨204061199, [3769, 107]⟩, ⟨272109983, [421, 233]⟩,
    ⟨311245691, [311, 29, 17]⟩, ⟨513928823, [661, 599]⟩, ⟨532247449, [363557]⟩,
    ⟨622491383, [311245691]⟩, ⟨34282281433, [204061199]⟩, ⟨53448597593, [513928823]⟩,
    ⟨0x3537f9d1b9, [272109983]⟩, ⟨0x15344d898fb7, [0x3537f9d1b9]⟩, ⟨0x28dc22dab6f9, [532247449]⟩,
    ⟨0xa3b2bf8c32ceaf, [704251, 78283]⟩, ⟨0xd53ab44ac00f4f, [19353437, 777241]⟩,
    ⟨0x2e3802c35c7ed3b, [191039911, 3023]⟩, ⟨0x12d611c157e5d505, [53448597593]⟩,
    ⟨0x1720b72947fc8b45d9, [0x15344d898fb7]⟩, ⟨0xe5d44c3fe9cf001873, [0xd53ab44ac00f4f]⟩,
    ⟨0x788dfeed61e9c29d3cf, [0x28dc22dab6f9]⟩, ⟨0x4d4ccc69f97d91fa4d43bdf, [0x1720b72947fc8b45d9]⟩,
    ⟨0x87b23e9d09d3e637b2aa341, [0x2e3802c35c7ed3b]⟩,
    ⟨0x39f9994f7b1e2d7bb9f2ce75, [0x4d4ccc69f97d91fa4d43bdf]⟩,
    ⟨0x4d6f0fac5c0e3050743c3537, [0x788dfeed61e9c29d3cf]⟩,
    ⟨0xae39e343cf1fecb5058777bbd, [0x4d6f0fac5c0e3050743c3537]⟩,
    ⟨0x10556d4e5b6afe30f884b3399b9, [0xae39e343cf1fecb5058777bbd]⟩,
    ⟨0x59692038853ba2a39463b0149af3859, [0xe5d44c3fe9cf001873]⟩,
    ⟨0x4be6ab2c80713e4d5142229baecfe3abc0f, [0x10556d4e5b6afe30f884b3399b9]⟩,
    ⟨0x8e5080f370d454d0f85c00e3e7c5cae209c3, [0x4be6ab2c80713e4d5142229baecfe3abc0f]⟩,
    ⟨0x22b559b5c816ae00f2378e18df38c5410ed597, [0xa3b2bf8c32ceaf, 34282281433]⟩,
    ⟨0x926d1276e41fae13fdda5f78edb7802a76951509, [0x22b559b5c816ae00f2378e18df38c5410ed597]⟩,
    ⟨0xa6fc66f961355bf57299eadf799cfd92769c4db1923363, [0x59692038853ba2a39463b0149af3859]⟩,
    ⟨0xa8c55f664384d6fe203ca16a45d7238cad2d61237ce2fa5933, [0x39f9994f7b1e2d7bb9f2ce75, 8463023]⟩,
    ⟨Curve.p256Domain.order, [0x87b23e9d09d3e637b2aa341, 622491383, 187019741]⟩,
    ⟨Curve.p256Domain.prime, [0x926d1276e41fae13fdda5f78edb7802a76951509]⟩,
    ⟨0x192a43d8f8a55b860e20c52b200024fbdd5c39850b80be9fa08e6156d781713c6b252c7,
      [0xa8c55f664384d6fe203ca16a45d7238cad2d61237ce2fa5933]⟩,
    ⟨0x23108c4e1b4108ec0ae7f9ac9f118677a6c53e44fd12fcacc07b805145240aae82349d3ce0e376778bd1,
      [0x8e5080f370d454d0f85c00e3e7c5cae209c3,
        0x12d611c157e5d505]⟩,
    ⟨0x18c61e9d6f5364020bfb6e04363013a05dc6efa02ece541f304622ec35a464bdcd07d18a2ce4ee8b39c6438bdbf,
      [0xa6fc66f961355bf57299eadf799cfd92769c4db1923363]⟩,
    ⟨Curve.p384Domain.order,
      [0x192a43d8f8a55b860e20c52b200024fbdd5c39850b80be9fa08e6156d781713c6b252c7]⟩,
    ⟨Curve.p384Domain.prime,
      [0x23108c4e1b4108ec0ae7f9ac9f118677a6c53e44fd12fcacc07b805145240aae82349d3ce0e376778bd1]⟩,
    ⟨0x5bc065010a97a162f78b610a077bb97b53886bb266481d591d2d02fd6aa2bf7392c391499b2d8f744518c799a7c35911a7,
      [0x18c61e9d6f5364020bfb6e04363013a05dc6efa02ece541f304622ec35a464bdcd07d18a2ce4ee8b39c6438bdbf]⟩,
    ⟨Curve.p521Domain.order,
      [0x5bc065010a97a162f78b610a077bb97b53886bb266481d591d2d02fd6aa2bf7392c391499b2d8f744518c799a7c35911a7]⟩]

theorem checks_curveSteps : checks smallPrimes curveSteps = true := by
  decide +kernel

theorem prime_of_mem_curveSteps {number : Nat} (member : number ∈ curveSteps.map Step.number) :
    number.Prime := by
  obtain ⟨step, isStep, rfl⟩ := List.mem_map.mp member
  exact prime_of_checks prime_of_mem_smallPrimes checks_curveSteps step isStep

end CredentialSigning.Primality

namespace CredentialSigning.Curve

theorem prime_mersenne : p521Domain.prime.Prime := by
  have same : p521Domain.prime = mersenne 521 := by decide +kernel
  rw [same]
  exact lucas_lehmer_sufficiency 521 (by decide) (by norm_num)

theorem prime_prime (curve : Curve) : curve.domain.prime.Prime := by
  cases curve with
  | p256 => exact Primality.prime_of_mem_curveSteps (by decide +kernel)
  | p384 => exact Primality.prime_of_mem_curveSteps (by decide +kernel)
  | p521 => exact prime_mersenne

theorem prime_order (curve : Curve) : curve.domain.order.Prime := by
  apply Primality.prime_of_mem_curveSteps
  cases curve <;> decide

end CredentialSigning.Curve
