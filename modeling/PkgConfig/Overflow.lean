namespace PkgConfig

/-! Sums and products of 64-bit words that are not cut to a word: there is no
result if it is none. -/

def checkedAdd? (left right : UInt64) : Option UInt64 :=
  if left.toBitVec.uaddOverflow right.toBitVec then none
  else some (left + right)

theorem checkedAdd?_eq_some_iff {left right sum : UInt64} :
    checkedAdd? left right = some sum ↔
      sum.toNat = left.toNat + right.toNat := by
  have added := UInt64.toNat_add left right
  have bound := sum.toNat_lt
  simp only [checkedAdd?, BitVec.uaddOverflow, UInt64.toNat_toBitVec,
    decide_eq_true_eq, ← UInt64.toNat_inj, Option.ite_none_left_eq_some,
    Option.some.injEq]
  omega

def checkedMul? (left right : UInt64) : Option UInt64 :=
  if left.toBitVec.umulOverflow right.toBitVec then none
  else some (left * right)

theorem checkedMul?_eq_some_iff {left right product : UInt64} :
    checkedMul? left right = some product ↔
      product.toNat = left.toNat * right.toNat := by
  have multiplied := UInt64.toNat_mul left right
  have bound := product.toNat_lt
  simp only [checkedMul?, BitVec.umulOverflow, UInt64.toNat_toBitVec,
    decide_eq_true_eq, ← UInt64.toNat_inj, Option.ite_none_left_eq_some,
    Option.some.injEq]
  generalize left.toNat * right.toNat = exact at multiplied
  omega

end PkgConfig
