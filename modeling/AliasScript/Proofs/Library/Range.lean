import AliasScript.Proofs.Library.Loading
import AliasScript.Proofs.Number.Unrounded

/-!
# Random numbers and their range

A program that imports the module with random numbers makes its requests to a generator
(`Equipped.answers`), and the generator keeps to the range if it was started from a seed that is not
negative (`random_inRange`). The remainder has the sign of the dividend, so a negative seed is
followed by seeds below zero, and a number that is drawn with one of them can come out below the
range (`random_below_range`).
-/

namespace AliasScript

namespace Machine

/-- A machine that has run nothing yet can load the module. -/
theorem equipped_initial (arguments : List String) (world : World) (tracing : Bool) :
    (initial arguments world tracing).Equipped where
  clock := ⟨3, rfl, rfl⟩
  round := ⟨6, rfl, rfl⟩
  depth := show 0 + 2 < maxDepth by decide
  fresh i _ := by simp [initial, Distances.find?]

/-- **Requests that follow an import are answered by the generator**, which starts from the time. -/
theorem Equipped.answers {m : Machine} (h : m.Equipped) (n : Nat) (keyword paren : Token)
    (requests : List (RandomRequest Float)) :
    ∃ m₁ m₂ c, (evaluatorOf (n + 16)).importPath keyword "std:Random" m = .ok () m₁ ∧
      c.lexeme = "Random" ∧
      (evaluatorOf (n + 16)).evaluateAll (requests.map (·.expression c paren)) m₁ =
        .ok ((Generator.answers .doubles requests m.world.time).map .ofAnswer) m₂ := by
  obtain ⟨m₁, s, id, himport, hstocked, hequipped⟩ := h.imports (n + 13) keyword
  let c : Token := ⟨.identifier, "Random", 0, 0, m₁.nextIndex, .nil⟩
  obtain ⟨m₂, hanswers, -⟩ := hstocked.yields_requests hequipped.depth n (c := c) paren rfl
    (hequipped.fresh _ (Nat.le_refl _)) requests
  exact ⟨m₁, m₂, c, himport, rfl, hanswers⟩

/-- **Random numbers stay in the requested range from a seed that is not negative.**

Importing the module loads it. While it is loaded, calls of its methods are answered as the
generator answers them with doubles, in any order and number, and it stays loaded. Doubles have the
fractions, remainders and words of exact numbers. With numbers that are never rounded a number from
a range, drawn after an integer seed and any draws, is an integer, at most as far below the range as
the range is wide and never above it. It lies in the range exactly if the product of the width with
the new seed lies above minus the modulus, and so it does after every seed that is not negative. -/
theorem random_inRange {m : Machine} (hm : m.Equipped) (n : Nat) (keyword : Token) :
    ∃ m₁ t id, (evaluatorOf (n + 16)).importPath keyword "std:Random" m = .ok () m₁ ∧
      m₁.Stocked t id m.world.time ∧ m₁.Equipped ∧
      (∀ (m₂ : Machine) (z : Float) (c paren : Token), m₂.Stocked t id z →
        m₂.depth + 2 < maxDepth → c.lexeme = "Random" → m₂.distances.find? c.index = none →
        ∀ requests : List (RandomRequest Float), ∃ m₃,
          (evaluatorOf (n + 16)).evaluateAll (requests.map (·.expression c paren)) m₂ =
              .ok ((Generator.answers .doubles requests z).map .ofAnswer) m₃ ∧
            m₃.Stocked t id (Generator.after .doubles requests z)) ∧
      Arithmetic.doubles.CutsExactly Number.value? ∧
      ∀ (z₀ : ℚ) (s : ℤ) (draws : List (RandomRequest ℚ)), (∀ q ∈ draws, q.IsDraw) →
        ∀ min max : ℤ, min ≤ max → ∃ z r : ℤ,
          Generator.answer .exact (.inRange min max)
              (Generator.after .exact (.seed s :: draws) z₀) = (some ↑r, ↑z) ∧
            2 * min - max ≤ r ∧ r ≤ max ∧
            (min ≤ r ↔ -(Generator.modulus : ℤ) < (max - min + 1) * z) ∧ (0 ≤ s → min ≤ r) := by
  obtain ⟨m₁, t, id, himport, hstocked, hequipped⟩ := hm.imports (n + 13) keyword
  refine ⟨m₁, t, id, himport, hstocked, hequipped, ?_, Arithmetic.cutsExactly_doubles, ?_⟩
  · intro m₂ z c paren hloaded hdepth hc hdistance requests
    obtain ⟨m₃, hanswers, hreseeded, -⟩ :=
      hloaded.yields_requests hdepth n paren hc hdistance requests
    exact ⟨m₃, hanswers, hloaded.reseeded hreseeded⟩
  · intro z₀ s draws hdraws min max hle
    exact Generator.inRange_exact s hdraws hle z₀

/-- The seed seven on a machine that has run nothing yet. -/
theorem random_inRange_seven :
    ∃ m₁ m₂ c, (evaluatorOf 16).importPath ⟨.importWord, "import", 1, 0, 0, .nil⟩ "std:Random"
        (initial [] .empty false) = .ok () m₁ ∧ c.lexeme = "Random" ∧
      (evaluatorOf 16).evaluateAll
        ([.seed 7, .random, .inRange 1 6].map (RandomRequest.expression c c)) m₁ =
          .ok [.nil, .num 1282168116, .num 2] m₂ ∧
      ∃ z r : ℤ, Generator.answer .exact (.inRange (1 : ℤ) (6 : ℤ))
        (Generator.after .exact [.seed (7 : ℤ), .random] 0) = (some ↑r, ↑z) ∧ 1 ≤ r ∧ r ≤ 6 := by
  obtain ⟨m₁, t, id, himport, hstocked, hequipped, hmachine, -, hexact⟩ := random_inRange
    (equipped_initial [] .empty false) 0 ⟨.importWord, "import", 1, 0, 0, .nil⟩
  let c : Token := ⟨.identifier, "Random", 0, 0, m₁.nextIndex, .nil⟩
  obtain ⟨m₂, hanswers, -⟩ := hmachine m₁ _ c c hstocked hequipped.depth rfl
    (hequipped.fresh _ (Nat.le_refl _)) [.seed 7, .random, .inRange 1 6]
  have hvalues : Generator.answers .doubles [.seed 7, .random, .inRange 1 6] World.empty.time =
      [none, some 1282168116, some 2] := by
    decide +kernel
  obtain ⟨z, r, hanswer, -, hmax, -, hmin⟩ := hexact 0 7 [.random]
    (by simp [RandomRequest.IsDraw]) 1 6 (by decide)
  exact ⟨m₁, m₂, c, himport, rfl, hanswers.trans (by rw [initial, hvalues]; rfl), z, r, hanswer,
    hmin (by decide), hmax⟩

/-- **The seed minus one gives a number below the range**, with doubles and with numbers that are
never rounded. -/
theorem random_below_range :
    (∃ m₁ m₂ c, (evaluatorOf 16).importPath ⟨.importWord, "import", 1, 0, 0, .nil⟩ "std:Random"
        (initial [] .empty false) = .ok () m₁ ∧ c.lexeme = "Random" ∧
      (evaluatorOf 16).evaluateAll
        ([.seed (-1), .inRange 1 6].map
          (RandomRequest.expression c ⟨.rightParen, ")", 1, 0, 0, .nil⟩)) m₁ =
            .ok [.nil, .num (-2)] m₂) ∧
    Generator.answer .exact (.inRange (1 : ℤ) (6 : ℤ))
      (Generator.after .exact [.seed (-1 : ℤ)] 0) = (some ↑(-2 : ℤ), ↑(-1103502900 : ℤ)) := by
  have hvalues : Generator.answers .doubles [.seed (-1), .inRange 1 6] World.empty.time =
      [none, some (-2)] := by
    decide +kernel
  constructor
  · obtain ⟨m₁, m₂, c, himport, hc, hanswers⟩ := (equipped_initial [] .empty false).answers 0
      ⟨.importWord, "import", 1, 0, 0, .nil⟩ ⟨.rightParen, ")", 1, 0, 0, .nil⟩
      [.seed (-1), .inRange 1 6]
    exact ⟨m₁, m₂, c, himport, hc, hanswers.trans (by rw [initial, hvalues]; rfl)⟩
  · exact (Generator.answer_inRange_exact 1 6 (-1)).trans (by decide +kernel)

end Machine

end AliasScript
