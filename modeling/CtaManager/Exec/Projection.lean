import CtaManager.Exec.TargetProxy
import CtaManager.Library.OrdMapRange

/-!
What an account receives of a position update (`target_proxy.rs`).

A projection goes over the targets once.  It drops an input with a reason or
places it at a symbol that is still free (`Projected.filter`, `Projected.place`),
so the inputs and the destinations match one to one (`TargetProjection.Partitions`)
and each destination carries the exposure of its input
(`TargetProjection.Conserves`).
-/

namespace CtaManager.Exec

open Check Catalog

section

variable {F : Type}

/-- Each input has one place: a destination of its own, or the filtered inputs. -/
structure TargetProjection.Partitions (p : TargetProjection F)
    (targets : OrdMap String (TargetPosition F)) : Prop where
  covers : ∀ input : String, input ∈ targets ↔ input ∈ p.matched ∨ input ∈ p.filtered
  apart : ∀ input : String, input ∈ p.matched → input ∉ p.filtered
  injective : ∀ (input input' : String) m m', p.matched[input]? = some m →
    p.matched[input']? = some m' → m.symbol = m'.symbol → input = input'
  image : ∀ symbol : String, symbol ∈ p.targets ↔
    ∃ (input : String) (m : MatchedContract F), p.matched[input]? = some m ∧ m.symbol = symbol
  kept : ∀ (input : String) m, p.matched[input]? = some m → ∃ target destination,
    targets[input]? = some target ∧ p.targets[m.symbol]? = some destination ∧
      destination.clear = target.clear ∧ destination.signal = target.signal
  remaps : ∀ (V : Type) (values : OrdMap String V) (symbol : String) (v : V),
    (p.remap values)[symbol]? = some v ↔ ∃ (input : String) (m : MatchedContract F),
      p.matched[input]? = some m ∧ m.symbol = symbol ∧ values[input]? = some v

/-- Each destination holds the units of the asset that its input asks for. -/
def TargetProjection.Conserves (p : TargetProjection ℚ)
    (targets : OrdMap String (TargetPosition ℚ)) (shares : ℚ) : Prop :=
  ∀ (input : String) m, p.matched[input]? = some m → ∃ target destination,
    targets[input]? = some target ∧ p.targets[m.symbol]? = some destination ∧
      destination.qty * m.targetContractMultiplier =
        target.qty * m.sourceContractMultiplier * shares ∧
      (destination.qty = 0 → target.qty = 0 ∨ shares = 0)

/-! ## One pass over the targets -/

/-- After the targets `done`: `Placed` relates a matched input to its destination, and
`Dropped` holds of a filtered input. -/
structure Projected
    (Placed : String → TargetPosition F → MatchedContract F → TargetPosition F → Prop)
    (Dropped : String → Prop) (done : List (String × TargetPosition F))
    (p : TargetProjection F) : Prop where
  covered : ∀ e ∈ done, e.1 ∈ p.matched ∨ e.1 ∈ p.filtered
  matched : ∀ (input : String) m, p.matched[input]? = some m → ∃ target destination,
    (input, target) ∈ done ∧ p.targets[m.symbol]? = some destination ∧
      Placed input target m destination
  filtered : ∀ input ∈ p.filtered, Dropped input ∧ input ∉ p.matched ∧ ∃ e ∈ done, e.1 = input
  injective : ∀ (input input' : String) m m', p.matched[input]? = some m →
    p.matched[input']? = some m' → m.symbol = m'.symbol → input = input'
  image : ∀ symbol ∈ p.targets, ∃ (input : String) (m : MatchedContract F),
    p.matched[input]? = some m ∧ m.symbol = symbol

variable {Placed : String → TargetPosition F → MatchedContract F → TargetPosition F → Prop}
  {Dropped : String → Prop} {done : List (String × TargetPosition F)} {p : TargetProjection F}
  {input : String} {target : TargetPosition F}

theorem Projected.mem_done (h : Projected Placed Dropped done p)
    (hmem : input ∈ p.matched ∨ input ∈ p.filtered) : input ∈ done.map Prod.fst := by
  rcases hmem with hmem | hmem
  · obtain ⟨m, hm⟩ := Option.isSome_iff_exists.1 (Std.ExtTreeMap.mem_iff_isSome_getElem?.1 hmem)
    obtain ⟨t, -, ht, -⟩ := h.matched input m hm
    exact List.mem_map.2 ⟨_, ht, rfl⟩
  · obtain ⟨-, -, e, he, heq⟩ := h.filtered input hmem
    exact List.mem_map.2 ⟨e, he, heq⟩

theorem projected_nil (nowUs : Int) : Projected Placed Dropped []
    ({ rulesFetchedAtUs := nowUs, targets := ∅, matched := ∅, filtered := ∅ } :
      TargetProjection F) where
  covered e he := absurd he List.not_mem_nil
  matched input m h := by simp at h
  filtered input h := by simp at h
  injective input input' m m' h := by simp at h
  image symbol h := by simp at h

theorem Projected.filter (h : Projected Placed Dropped done p)
    (hnew : input ∉ done.map Prod.fst) (hdrop : Dropped input) (reason : String) :
    Projected Placed Dropped (done ++ [(input, target)]) (p.filter input reason) where
  covered e he := by
    rcases List.mem_append.1 he with he | he
    · exact (h.covered e he).imp_right fun hf => OrdMap.mem_insert_iff.2 (Or.inr hf)
    · rw [List.mem_singleton.1 he]
      exact Or.inr (OrdMap.mem_insert_iff.2 (Or.inl rfl))
  matched i m hm := by
    obtain ⟨t, d, ht, hd, hplaced⟩ := h.matched i m hm
    exact ⟨t, d, List.mem_append_left _ ht, hd, hplaced⟩
  filtered i hi := by
    rcases OrdMap.mem_insert_iff.1 hi with rfl | hi
    · refine ⟨hdrop, fun hm => hnew (h.mem_done (Or.inl hm)), (input, target), ?_, rfl⟩
      exact List.mem_append_right _ List.mem_cons_self
    · obtain ⟨hd, hm, e, he, heq⟩ := h.filtered i hi
      exact ⟨hd, hm, e, List.mem_append_left _ he, heq⟩
  injective := h.injective
  image := h.image

theorem Projected.place (h : Projected Placed Dropped done p)
    (hnew : input ∉ done.map Prod.fst) {contract : MatchedContract F}
    {destination : TargetPosition F} (hfree : contract.symbol ∉ p.targets)
    (hplaced : Placed input target contract destination) :
    Projected Placed Dropped (done ++ [(input, target)]) (p.place input contract destination) := by
  have hmatched : ∀ (i : String) m, (p.place input contract destination).matched[i]? = some m →
      (i = input ∧ m = contract) ∨ i ≠ input ∧ p.matched[i]? = some m := by
    intro i m hm
    rw [TargetProjection.place, OrdMap.getElem?_insert_of_key] at hm
    split at hm
    · next heq => exact Or.inl ⟨heq.symm, (Option.some.inj hm).symm⟩
    · next hne => exact Or.inr ⟨fun heq => hne heq.symm, hm⟩
  -- an earlier destination is not the new one
  have hold : ∀ (i : String) m, p.matched[i]? = some m → contract.symbol ≠ m.symbol := by
    intro i m hm heq
    obtain ⟨-, d, -, hd, -⟩ := h.matched i m hm
    exact hfree (Std.ExtTreeMap.mem_iff_isSome_getElem?.2 (by rw [heq, hd]; rfl))
  refine ⟨fun e he => ?_, fun i m hm => ?_, fun i hi => ?_, fun i i' m m' hm hm' heq => ?_,
    fun symbol hs => ?_⟩
  · rcases List.mem_append.1 he with he | he
    · exact (h.covered e he).imp_left fun hf => OrdMap.mem_insert_iff.2 (Or.inr hf)
    · rw [List.mem_singleton.1 he]
      exact Or.inl (OrdMap.mem_insert_iff.2 (Or.inl rfl))
  · rcases hmatched i m hm with ⟨rfl, rfl⟩ | ⟨-, hm⟩
    · refine ⟨target, destination, List.mem_append_right _ List.mem_cons_self, ?_, hplaced⟩
      rw [TargetProjection.place, OrdMap.getElem?_insert_of_key, if_pos rfl]
    · obtain ⟨t, d, ht, hd, hp⟩ := h.matched i m hm
      refine ⟨t, d, List.mem_append_left _ ht, ?_, hp⟩
      rw [TargetProjection.place, OrdMap.getElem?_insert_of_key, if_neg (hold i m hm), hd]
  · obtain ⟨hd, hm, e, he, heq⟩ := h.filtered i hi
    refine ⟨hd, fun hin => ?_, e, List.mem_append_left _ he, heq⟩
    rcases OrdMap.mem_insert_iff.1 hin with rfl | hin
    · exact hnew (h.mem_done (Or.inr hi))
    · exact hm hin
  · rcases hmatched i m hm with ⟨hi, hc⟩ | ⟨-, hearlier⟩
    · rcases hmatched i' m' hm' with ⟨hi', -⟩ | ⟨-, hearlier'⟩
      · exact hi.trans hi'.symm
      · exact absurd (hc ▸ heq) (hold i' m' hearlier')
    · rcases hmatched i' m' hm' with ⟨-, hc'⟩ | ⟨-, hearlier'⟩
      · exact absurd (hc' ▸ heq.symm) (hold i m hearlier)
      · exact h.injective i i' m m' hearlier hearlier' heq
  · rcases OrdMap.mem_insert_iff.1 hs with rfl | hs
    · refine ⟨input, contract, ?_, rfl⟩
      rw [TargetProjection.place, OrdMap.getElem?_insert_of_key, if_pos rfl]
    · obtain ⟨i, m, hm, heq⟩ := h.image symbol hs
      refine ⟨i, m, ?_, heq⟩
      have hne : input ≠ i := by
        rintro rfl
        obtain ⟨t, -, ht, -⟩ := h.matched input m hm
        exact hnew (List.mem_map.2 ⟨_, ht, rfl⟩)
      rw [TargetProjection.place, OrdMap.getElem?_insert_of_key, if_neg hne, hm]

/-- A step drops its input, or places it at a free symbol. -/
def Places (Placed : String → TargetPosition F → MatchedContract F → TargetPosition F → Prop)
    (Dropped : String → Prop) (p : TargetProjection F) (e : String × TargetPosition F)
    (p' : TargetProjection F) : Prop :=
  (Dropped e.1 ∧ ∃ reason, p' = p.filter e.1 reason) ∨
    ∃ contract destination, p' = p.place e.1 contract destination ∧
      contract.symbol ∉ p.targets ∧ Placed e.1 e.2 contract destination

/-- The pass over the targets, from the projection of those before them. -/
theorem Projected.foldlM
    {step : TargetProjection F → String × TargetPosition F → Except String (TargetProjection F)}
    {l : List (String × TargetPosition F)}
    (hstep : ∀ done p e p', e.1 ∉ done.map Prod.fst → Projected Placed Dropped done p →
      step p e = .ok p' → Places Placed Dropped p e p')
    (h : Projected Placed Dropped done p) (hnodup : ((done ++ l).map Prod.fst).Nodup)
    {q : TargetProjection F} (hq : l.foldlM step p = .ok q) :
    Projected Placed Dropped (done ++ l) q := by
  induction l generalizing done p with
  | nil =>
    rw [foldlM_nil, Except.ok.injEq] at hq
    rwa [List.append_nil, ← hq]
  | cons e l ih =>
    obtain ⟨input, target⟩ := e
    rw [foldlM_cons] at hq
    obtain ⟨p', hp', hq⟩ := bind_eq_ok.1 hq
    have hnew : input ∉ done.map Prod.fst := by
      rw [List.map_append, List.nodup_append] at hnodup
      exact fun hmem => hnodup.2.2 _ hmem _ List.mem_cons_self rfl
    have hnext : Projected Placed Dropped (done ++ [(input, target)]) p' := by
      rcases hstep done p _ p' hnew h hp' with
        ⟨hdrop, reason, rfl⟩ | ⟨contract, destination, rfl, hfree, hplaced⟩
      · exact h.filter hnew hdrop reason
      · exact h.place hnew hfree hplaced
    have happend : done ++ (input, target) :: l = done ++ [(input, target)] ++ l := by
      rw [List.append_assoc]
      rfl
    rw [happend] at hnodup ⊢
    exact ih hnext hnodup hq

/-! ## The values of the inputs, at their destinations -/

/-- No two matched inputs share a destination, so none overwrites the other. -/
theorem getElem?_remap {V : Type}
    (hinj : ∀ (input input' : String) m m', p.matched[input]? = some m →
      p.matched[input']? = some m' → m.symbol = m'.symbol → input = input')
    (values : OrdMap String V) (symbol : String) (v : V) :
    (p.remap values)[symbol]? = some v ↔ ∃ (input : String) (m : MatchedContract F),
      p.matched[input]? = some m ∧ m.symbol = symbol ∧ values[input]? = some v := by
  have hentry : ∀ s w, (s, w) ∈ (p.matched.toList.filterMap fun entry =>
      (values[entry.1]?).map fun value => (entry.2.symbol, value)) ↔
      ∃ (input : String) (m : MatchedContract F),
        p.matched[input]? = some m ∧ m.symbol = s ∧ values[input]? = some w := by
    intro s w
    rw [List.mem_filterMap]
    constructor
    · rintro ⟨⟨input, m⟩, hm, hv⟩
      obtain ⟨value, hvalue, heq⟩ := Option.map_eq_some_iff.1 hv
      cases heq
      exact ⟨input, m, OrdMap.mem_toList.1 hm, rfl, hvalue⟩
    · rintro ⟨input, m, hm, rfl, hv⟩
      refine ⟨(input, m), OrdMap.mem_toList.2 hm, ?_⟩
      dsimp only
      rw [hv]
      rfl
  constructor
  · intro h
    rcases OrdMap.mem_of_getElem?_foldl_insert h with h | h
    · exact (hentry symbol v).1 h
    · simp at h
  · intro h
    refine OrdMap.getElem?_foldl_insert _ _ _ _ ((hentry symbol v).2 h) ?_
    intro w hw
    obtain ⟨input, m, hm, hs, hv⟩ := h
    obtain ⟨input', m', hm', hs', hv'⟩ := (hentry symbol w).1 hw
    have heq := hinj input input' m m' hm hm' (hs.trans hs'.symm)
    rw [← heq, hv] at hv'
    exact (Option.some.inj hv').symm

/-- A finished pass matches the targets and their destinations. -/
theorem Projected.partitions {targets : OrdMap String (TargetPosition F)}
    (h : Projected Placed Dropped targets.toList p)
    (hkept : ∀ input target m destination, Placed input target m destination →
      destination.clear = target.clear ∧ destination.signal = target.signal) :
    p.Partitions targets where
  covers input := by
    constructor
    · intro hin
      obtain ⟨t, ht⟩ := Option.isSome_iff_exists.1 (Std.ExtTreeMap.mem_iff_isSome_getElem?.1 hin)
      exact h.covered (input, t) (OrdMap.mem_toList.2 ht)
    · intro hin
      obtain ⟨⟨i, t⟩, he, rfl⟩ := List.mem_map.1 (h.mem_done hin)
      exact Std.ExtTreeMap.mem_iff_isSome_getElem?.2 (by rw [OrdMap.mem_toList.1 he]; rfl)
  apart input hm hf := (h.filtered input hf).2.1 hm
  injective := h.injective
  image symbol := by
    refine ⟨h.image symbol, ?_⟩
    rintro ⟨input, m, hm, rfl⟩
    obtain ⟨-, d, -, hd, -⟩ := h.matched input m hm
    exact Std.ExtTreeMap.mem_iff_isSome_getElem?.2 (by rw [hd]; rfl)
  kept input m hm := by
    obtain ⟨t, d, ht, hd, hplaced⟩ := h.matched input m hm
    exact ⟨t, d, OrdMap.mem_toList.1 ht, hd, hkept input t m d hplaced⟩
  remaps V values := getElem?_remap h.injective values

end

/-! ## Cross-spread targets -/

section

theorem splitOnce_eq_some {s a b : String} {c : Char} (h : Text.splitOnce s c = some (a, b)) :
    s.toList = a.toList ++ c :: b.toList ∧ c ∉ a.toList := by
  unfold Text.splitOnce at h
  have happend := List.takeWhile_append_dropWhile (p := (· != c)) (l := s.toList)
  rw [List.span_eq_takeWhile_dropWhile] at h
  cases hrest : s.toList.dropWhile (· != c) with
  | nil =>
    rw [hrest] at h
    cases h
  | cons d rest =>
    have hd : d = c := by
      have hhead := List.head_dropWhile_not (p := (· != c)) (l := s.toList) (by simp [hrest])
      simpa [hrest] using hhead
    rw [hrest] at h
    obtain ⟨rfl, rfl⟩ := Prod.mk.inj (Option.some.inj h)
    rw [String.toList_ofList, String.toList_ofList, ← hd, ← hrest, hd]
    refine ⟨happend.symm, fun hmem => ?_⟩
    simpa using List.mem_takeWhile_imp hmem

theorem splitOnce_colon {a b : String} (h : ':' ∉ a.toList) :
    Text.splitOnce (a ++ ":" ++ b) ':' = some (a, b) := by
  have hall : ∀ d ∈ a.toList, (d != ':') = true := by
    intro d hd
    exact bne_iff_ne.2 fun heq => h (heq ▸ hd)
  have hlist : (a ++ ":" ++ b).toList = a.toList ++ ':' :: b.toList := by
    rw [String.toList_append, String.toList_append, List.append_assoc]
    rfl
  unfold Text.splitOnce
  rw [hlist, List.span_eq_takeWhile_dropWhile, List.takeWhile_append_of_pos hall,
    List.dropWhile_append_of_pos hall]
  simp

variable [Text.Unicode]

theorem not_mem_colon_of_validateExecSymbol {symbol : String} {u : Unit}
    (h : validateExecSymbol symbol = .ok u) : ':' ∉ symbol.toList := by
  intro hmem
  unfold validateExecSymbol at h
  obtain ⟨-, -, h⟩ := bind_eq_ok.1 h
  rw [ensure_eq_ok, Bool.and_eq_true, List.all_eq_true] at h
  have hcolon := h.2 ':' hmem
  rw [if_pos (by decide)] at hcolon
  exact absurd hcolon (by decide)

theorem validateExecSymbol_of_normalize {raw symbol : String}
    (h : normalizeExecSymbol raw = .ok symbol) : validateExecSymbol symbol = .ok () := by
  unfold normalizeExecSymbol at h
  dsimp only at h
  cases hcut : Text.splitOnce (Text.Unicode.toUppercase (Text.trim raw)) '_' with
  | none =>
    rw [hcut] at h
    obtain ⟨-, -, h⟩ := bind_eq_ok.1 h
    obtain ⟨_, -, h⟩ := bind_eq_ok.1 h
    obtain ⟨_, hvalid, h⟩ := bind_eq_ok.1 h
    cases h
    exact hvalid
  | some cut =>
    rw [hcut] at h
    obtain ⟨-, -, h⟩ := bind_eq_ok.1 h
    obtain ⟨-, -, h⟩ := bind_eq_ok.1 h
    obtain ⟨_, -, h⟩ := bind_eq_ok.1 h
    obtain ⟨_, hvalid, h⟩ := bind_eq_ok.1 h
    cases h
    exact hvalid

def IsLinearVenue (venue : String) : Prop :=
  venue = "okex-futures" ∨ venue = "binance-futures"

/-- The name of a cross-spread target begins with one of the two venues. -/
theorem isLinearVenue_of_validateTarget {key venue symbol : String} {u : Unit}
    (h : validateTarget key = .ok u) (hkey : Text.splitOnce key ':' = some (venue, symbol)) :
    IsLinearVenue venue := by
  obtain ⟨normalized, hnormalized, h⟩ := bind_eq_ok.1 h
  rw [ensure_eq_ok, beq_iff_eq] at h
  subst h
  unfold normalizeTarget at hnormalized
  cases hsplit : Text.splitOnce (Text.trim normalized) ':' with
  | none =>
    rw [hsplit] at hnormalized
    have hvalid := validateExecSymbol_of_normalize hnormalized
    have hcolon : ':' ∈ normalized.toList := by
      rw [(splitOnce_eq_some hkey).1]
      exact List.mem_append_right _ List.mem_cons_self
    exact absurd hcolon (not_mem_colon_of_validateExecSymbol hvalid)
  | some leg =>
    obtain ⟨v, s⟩ := leg
    rw [hsplit] at hnormalized
    obtain ⟨_, hvenue, hnormalized⟩ := bind_eq_ok.1 hnormalized
    obtain ⟨leg, -, hnormalized⟩ := bind_eq_ok.1 hnormalized
    obtain ⟨-, -, hnormalized⟩ := bind_eq_ok.1 hnormalized
    rw [pure_eq_ok, Except.ok.injEq] at hnormalized
    rw [ensure_eq_ok, Bool.or_eq_true, beq_iff_eq, beq_iff_eq] at hvenue
    have hcolon : ':' ∉ (Text.toAsciiLowercase v).toList := by
      rcases hvenue with heq | heq
      · rw [heq]
        decide
      · rw [heq]
        decide
    have hleg : Text.splitOnce normalized ':' = some (Text.toAsciiLowercase v, leg) := by
      rw [← hnormalized]
      exact splitOnce_colon hcolon
    rw [hkey] at hleg
    obtain ⟨rfl, -⟩ := Prod.mk.inj (Option.some.inj hleg)
    exact hvenue

variable {F : Type} [F64 F] {source : ProxySource F} {shares : F}

/-- The leg of the venue of the source takes the target as it is, times the shares. -/
def CrossPlaced (source : ProxySource F) (shares : F) (key : String) (target : TargetPosition F)
    (m : MatchedContract F) (destination : TargetPosition F) : Prop :=
  Text.splitOnce key ':' = some (source.venue, m.symbol) ∧ m.sourceContractMultiplier = 1 ∧
    m.targetContractMultiplier = 1 ∧
    destination = { target with
      qty := if target.clear || shares == 0 then 0 else target.qty * shares } ∧
    (shares == 0 || target.qty == 0 || destination.qty != 0) = true

/-- A target of the other leg. -/
def CrossDropped (source : ProxySource F) (key : String) : Prop :=
  IsLinearVenue source.venue ∧ ∃ venue symbol, Text.splitOnce key ':' = some (venue, symbol) ∧
    IsLinearVenue venue ∧ venue ≠ source.venue

omit [F64 F] in
theorem isLinearVenue_of_validateTargetSymbol {key venue symbol : String} {u : Unit}
    (h : validateTargetSymbol source key = .ok u)
    (hkey : Text.splitOnce key ':' = some (venue, symbol)) :
    IsLinearVenue source.venue ∧ IsLinearVenue venue := by
  have hcolon : key.toList.contains ':' = true := by
    rw [List.contains_iff_mem, (splitOnce_eq_some hkey).1]
    exact List.mem_append_right _ List.mem_cons_self
  unfold validateTargetSymbol at h
  rw [if_pos hcolon] at h
  obtain ⟨_, hvalid, h⟩ := bind_eq_ok.1 h
  rw [ensure_eq_ok, Bool.and_eq_true, List.contains_iff_mem] at h
  refine ⟨?_, isLinearVenue_of_validateTarget hvalid hkey⟩
  simpa [IsLinearVenue] using h.2

theorem crossSpreadTarget_places {done : List (String × TargetPosition F)}
    {p p' : TargetProjection F} {e : String × TargetPosition F}
    (hnew : e.1 ∉ done.map Prod.fst)
    (h : Projected (CrossPlaced source shares) (CrossDropped source) done p)
    (hp' : crossSpreadTarget source shares p e = .ok p') :
    Places (CrossPlaced source shares) (CrossDropped source) p e p' := by
  obtain ⟨key, target⟩ := e
  obtain ⟨_, hvalid, hp'⟩ := bind_eq_ok.1 hp'
  dsimp only at hvalid hp' hnew ⊢
  cases hkey : Text.splitOnce key ':' with
  | none =>
    rw [hkey] at hp'
    cases hp'
  | some leg =>
    obtain ⟨venue, symbol⟩ := leg
    rw [hkey] at hp'
    dsimp only at hp'
    by_cases hvenue : venue = source.venue
    · rw [if_neg (by simp [hvenue])] at hp'
      obtain ⟨-, -, hp'⟩ := bind_eq_ok.1 hp'
      obtain ⟨_, hflow, hp'⟩ := bind_eq_ok.1 hp'
      cases hp'
      rw [ensure_eq_ok] at hflow
      refine Or.inr ⟨_, _, rfl, fun hmem => ?_, by rw [hkey, hvenue], rfl, rfl, rfl, hflow⟩
      -- the key of an earlier leg with this symbol would be the same
      obtain ⟨key', m, hm, hsymbol⟩ := h.image symbol hmem
      obtain ⟨target', _, hdone, -, hplaced⟩ := h.matched key' m hm
      have heq : key' = key := by
        rw [← String.toList_inj, (splitOnce_eq_some hplaced.1).1, (splitOnce_eq_some hkey).1,
          hsymbol, hvenue]
      exact hnew (List.mem_map.2 ⟨_, hdone, heq⟩)
    · rw [if_pos (by simpa using hvenue)] at hp'
      cases hp'
      obtain ⟨hsource, hlinear⟩ := isLinearVenue_of_validateTargetSymbol hvalid hkey
      exact Or.inl ⟨⟨hsource, venue, symbol, hkey, hlinear, hvenue⟩, _, rfl⟩

theorem projected_of_projectCrossSpread {targets : OrdMap String (TargetPosition F)} {nowUs : Int}
    {p : TargetProjection F} (h : projectCrossSpread source targets shares nowUs = .ok p) :
    Projected (CrossPlaced source shares) (CrossDropped source) targets.toList p := by
  obtain ⟨-, -, h⟩ := bind_eq_ok.1 h
  obtain ⟨-, -, h⟩ := bind_eq_ok.1 h
  exact Projected.foldlM (fun _ _ _ _ hnew hp hp' => crossSpreadTarget_places hnew hp hp')
    (projected_nil nowUs) (OrdMap.nodup_keys_toList targets) h

omit [Text.Unicode] in
/-- The venue in the name of a matched leg. -/
theorem Projected.venue_of_mem {done : List (String × TargetPosition F)} {p : TargetProjection F}
    (h : Projected (CrossPlaced source shares) (CrossDropped source) done p) {key : String}
    (hmem : key ∈ p.matched) : (Text.splitOnce key ':').map Prod.fst = some source.venue := by
  obtain ⟨m, hm⟩ := Option.isSome_iff_exists.1 (Std.ExtTreeMap.mem_iff_isSome_getElem?.1 hmem)
  obtain ⟨target, _, -, -, hplaced⟩ := h.matched key m hm
  rw [hplaced.1]
  rfl

/-- Two sources of different venues share the legs. -/
theorem crossSpread_owned_once {targets : OrdMap String (TargetPosition F)}
    {source source' : ProxySource F} {shares shares' : F} {nowUs nowUs' : Int}
    {p p' : TargetProjection F} (hvenues : source.venue ≠ source'.venue)
    (h : projectCrossSpread source targets shares nowUs = .ok p)
    (h' : projectCrossSpread source' targets shares' nowUs' = .ok p')
    {key : String} (hkey : key ∈ targets) :
    (key ∈ p.matched ∧ key ∉ p'.matched) ∨ (key ∉ p.matched ∧ key ∈ p'.matched) := by
  have hp := projected_of_projectCrossSpread h
  have hp' := projected_of_projectCrossSpread h'
  obtain ⟨target, htarget⟩ :=
    Option.isSome_iff_exists.1 (Std.ExtTreeMap.mem_iff_isSome_getElem?.1 hkey)
  have hmem : (key, target) ∈ targets.toList := OrdMap.mem_toList.2 htarget
  rcases hp.covered _ hmem with hm | hf
  · refine Or.inl ⟨hm, fun hm' => hvenues ?_⟩
    exact Option.some.inj ((hp.venue_of_mem hm).symm.trans (hp'.venue_of_mem hm'))
  · obtain ⟨⟨hlinear, venue, symbol, hsplit, hvenue, hne⟩, hnot, -⟩ := hp.filtered key hf
    refine Or.inr ⟨hnot, (hp'.covered _ hmem).resolve_right fun hf' => ?_⟩
    -- the venue of the leg would be a third one
    obtain ⟨⟨hlinear', venue', symbol', hsplit', -, hne'⟩, -, -⟩ := hp'.filtered key hf'
    rw [hsplit] at hsplit'
    obtain ⟨rfl, -⟩ := Prod.mk.inj (Option.some.inj hsplit')
    unfold IsLinearVenue at hlinear hlinear' hvenue
    grind

/-! ## Bybit contracts -/

/-- The contract of an input takes its quantity by the ratio of the multipliers. -/
def ProxyPlaced (config : TargetProxyConfig F) (shares : F) (input : String)
    (target : TargetPosition F) (m : MatchedContract F) (destination : TargetPosition F) : Prop :=
  m = config.contract input ∧
    destination = { target with
      qty := if shares == 0 || target.clear then 0
        else target.qty * m.quantityMultiplier * shares } ∧
    (target.qty == 0 || shares == 0 || destination.qty != 0) = true

theorem projectTarget_places {config : TargetProxyConfig F} {snapshot : MarketRulesSnapshot}
    {p p' : TargetProjection F} {e : String × TargetPosition F}
    (hp' : projectTarget config snapshot shares p e = .ok p') :
    Places (ProxyPlaced config shares) (fun _ => True) p e p' := by
  obtain ⟨input, target⟩ := e
  unfold projectTarget at hp'
  dsimp only at hp' ⊢
  by_cases hcontract : isUsdtContract input = true
  · rw [if_neg (by simp [hcontract])] at hp'
    cases hrule : snapshot.symbols[(config.contract input).symbol]? with
    | none =>
      rw [hrule] at hp'
      cases hp'
      exact Or.inl ⟨trivial, _, rfl⟩
    | some rule =>
      rw [hrule] at hp'
      dsimp only at hp'
      by_cases hclosed : (rule.status != "Trading" || rule.quoteAsset != "USDT") = true
      · rw [if_pos hclosed] at hp'
        cases hp'
        exact Or.inl ⟨trivial, _, rfl⟩
      · rw [if_neg hclosed] at hp'
        obtain ⟨_, -, hp'⟩ := bind_eq_ok.1 hp'
        obtain ⟨_, hflow, hp'⟩ := bind_eq_ok.1 hp'
        obtain ⟨_, hfree, hp'⟩ := bind_eq_ok.1 hp'
        cases hp'
        rw [ensure_eq_ok] at hflow hfree
        refine Or.inr ⟨_, _, rfl, fun hmem => ?_, rfl, rfl, hflow⟩
        rw [Std.ExtTreeMap.mem_iff_contains] at hmem
        rw [hmem] at hfree
        cases hfree
  · rw [if_pos (by simpa using hcontract)] at hp'
    cases hp'
    exact Or.inl ⟨trivial, _, rfl⟩

theorem projected_of_project {config : TargetProxyConfig F} {snapshot : MarketRulesSnapshot}
    {targets : OrdMap String (TargetPosition F)} {nowUs : Int} {p : TargetProjection F}
    (h : project config snapshot targets shares nowUs = .ok p) :
    Projected (ProxyPlaced config shares) (fun _ => True) targets.toList p := by
  obtain ⟨-, -, h⟩ := bind_eq_ok.1 h
  obtain ⟨-, -, h⟩ := bind_eq_ok.1 h
  obtain ⟨-, -, h⟩ := bind_eq_ok.1 h
  obtain ⟨-, -, h⟩ := bind_eq_ok.1 h
  obtain ⟨-, -, h⟩ := bind_eq_ok.1 h
  obtain ⟨-, -, h⟩ := bind_eq_ok.1 h
  exact Projected.foldlM (fun _ _ _ _ _ _ hp' => projectTarget_places hp')
    (projected_nil snapshot.fetchedAtUs) (OrdMap.nodup_keys_toList targets) h

/-! ## Exposure -/

theorem qty_of_validateTargets {targets : OrdMap String (TargetPosition ℚ)} {u : Unit}
    (h : validateTargets targets = .ok u) {input : String} {target : TargetPosition ℚ}
    (hmem : (input, target) ∈ targets.toList) (hclear : target.clear = true) :
    target.qty = 0 := by
  have hvalid := forM_eq_ok.1 h _ hmem
  dsimp only at hvalid
  unfold validateTargetPosition at hvalid
  obtain ⟨_, -, hvalid⟩ := bind_eq_ok.1 hvalid
  have hquantity : ∀ e, (ensure (!(target.clear && target.qty != 0)) e >>= fun _ =>
      (ensure (F64.isFinite target.qty) ("targets." ++ input ++ ".qty must be finite")) >>= fun _ =>
      (validateTargetSignal target.signal).mapError fun e => "targets." ++ input ++ "." ++ e) =
        .ok ⟨⟩ → target.qty = 0 := by
    intro e he
    obtain ⟨_, hzero, -⟩ := bind_eq_ok.1 he
    simpa [hclear] using hzero
  split at hvalid
  · split at hvalid
    · cases hvalid
    · obtain ⟨_, -, hvalid⟩ := bind_eq_ok.1 hvalid
      exact hquantity _ hvalid
  · exact hquantity _ hvalid

theorem pos_of_foldlM_validateMapping {l : List (String × ContractMapping ℚ)}
    {done destinations : OrdSet String} (h : l.foldlM validateMapping done = .ok destinations)
    {e : String × ContractMapping ℚ} (he : e ∈ l) :
    0 < e.2.sourceContractMultiplier ∧ 0 < e.2.targetContractMultiplier := by
  induction l generalizing done with
  | nil => exact absurd he List.not_mem_nil
  | cons e' l ih =>
    rw [foldlM_cons] at h
    obtain ⟨next, hnext, h⟩ := bind_eq_ok.1 h
    rcases List.mem_cons.1 he with rfl | he
    · obtain ⟨_, -, hnext⟩ := bind_eq_ok.1 hnext
      obtain ⟨_, hpos, -⟩ := bind_eq_ok.1 hnext
      have hpos := forM_eq_ok.1 hpos
      simpa using hpos
    · exact ih h he

theorem multipliers_pos {config : TargetProxyConfig ℚ} {venue : String} {u : Unit}
    (h : config.validate venue = .ok u) (input : String) :
    0 < (config.contract input).sourceContractMultiplier ∧
      0 < (config.contract input).targetContractMultiplier := by
  obtain ⟨_, -, h⟩ := bind_eq_ok.1 h
  obtain ⟨destinations, hfold, -⟩ := bind_eq_ok.1 h
  unfold TargetProxyConfig.contract
  dsimp only
  cases hmapping : config.symbolMappings[input]? with
  | none => exact ⟨zero_lt_one, zero_lt_one⟩
  | some mapping => exact pos_of_foldlM_validateMapping hfold (OrdMap.mem_toList.2 hmapping)

omit [Text.Unicode] in
/-- A destination quantity, in the units of the asset. -/
theorem exposure_eq {target : TargetPosition ℚ} (shares source : ℚ) {target' : ℚ}
    (hclear : target.clear = true → target.qty = 0) (hpos : 0 < target') :
    (if shares == 0 || target.clear then 0 else target.qty * (source / target') * shares) *
      target' = target.qty * source * shares := by
  split
  · next h =>
    rw [Bool.or_eq_true, beq_iff_eq] at h
    rcases h with h | h
    · rw [h, zero_mul, mul_zero]
    · rw [hclear h, zero_mul, zero_mul, zero_mul]
  · field_simp

theorem conserves_of_project {config : TargetProxyConfig ℚ} {snapshot : MarketRulesSnapshot}
    {targets : OrdMap String (TargetPosition ℚ)} {shares : ℚ} {nowUs : Int}
    {p : TargetProjection ℚ} (h : project config snapshot targets shares nowUs = .ok p) :
    p.Conserves targets shares := by
  have hp := projected_of_project h
  obtain ⟨_, hconfig, h⟩ := bind_eq_ok.1 h
  obtain ⟨_, -, h⟩ := bind_eq_ok.1 h
  obtain ⟨_, -, h⟩ := bind_eq_ok.1 h
  obtain ⟨_, -, h⟩ := bind_eq_ok.1 h
  obtain ⟨_, htargets, h⟩ := bind_eq_ok.1 h
  intro input m hm
  obtain ⟨target, destination, hdone, hdestination, rfl, rfl, hflow⟩ := hp.matched input m hm
  refine ⟨target, _, OrdMap.mem_toList.1 hdone, hdestination, ?_, fun hzero => ?_⟩
  · exact exposure_eq shares _ (qty_of_validateTargets htargets hdone) (multipliers_pos hconfig input).2
  · rw [hzero] at hflow
    simpa using hflow

theorem conserves_of_projectCrossSpread {source : ProxySource ℚ}
    {targets : OrdMap String (TargetPosition ℚ)} {shares : ℚ} {nowUs : Int}
    {p : TargetProjection ℚ} (h : projectCrossSpread source targets shares nowUs = .ok p) :
    p.Conserves targets shares := by
  have hp := projected_of_projectCrossSpread h
  obtain ⟨_, htargets, h⟩ := bind_eq_ok.1 h
  intro input m hm
  obtain ⟨target, destination, hdone, hdestination, -, hsource, htarget, rfl, hflow⟩ :=
    hp.matched input m hm
  refine ⟨target, _, OrdMap.mem_toList.1 hdone, hdestination, ?_, fun hzero => ?_⟩
  · have hexposure :=
      exposure_eq shares 1 (qty_of_validateTargets htargets hdone) zero_lt_one
    rw [hsource, htarget, ← hexposure, Bool.or_comm, div_one, mul_one (target.qty)]
  · rw [hzero] at hflow
    simpa [or_comm] using hflow

/-- An account's projection of a position update, by either way. -/
inductive ProjectsTo {F : Type} [F64 F] (targets : OrdMap String (TargetPosition F)) (shares : F)
    (nowUs : Int) (p : TargetProjection F) : Prop
  | proxy (config : TargetProxyConfig F) (snapshot : MarketRulesSnapshot)
    (h : project config snapshot targets shares nowUs = .ok p)
  | crossSpread (source : ProxySource F)
    (h : projectCrossSpread source targets shares nowUs = .ok p)

theorem ProjectsTo.partitions {F : Type} [F64 F] {targets : OrdMap String (TargetPosition F)}
    {shares : F} {nowUs : Int} {p : TargetProjection F} (h : ProjectsTo targets shares nowUs p) :
    p.Partitions targets := by
  cases h with
  | proxy config snapshot h =>
    refine (projected_of_project h).partitions fun input target m destination hplaced => ?_
    rw [hplaced.2.1]
    exact ⟨rfl, rfl⟩
  | crossSpread source h =>
    refine (projected_of_projectCrossSpread h).partitions
      fun input target m destination hplaced => ?_
    rw [hplaced.2.2.2.1]
    exact ⟨rfl, rfl⟩

theorem ProjectsTo.conserves {targets : OrdMap String (TargetPosition ℚ)} {shares : ℚ}
    {nowUs : Int} {p : TargetProjection ℚ} (h : ProjectsTo targets shares nowUs p) :
    p.Conserves targets shares := by
  cases h with
  | proxy config snapshot h => exact conserves_of_project h
  | crossSpread source h => exact conserves_of_projectCrossSpread h

end

section

attribute [local instance] Text.Unicode.ascii

/-- A contract of thousands, one by its own name, and one that Bybit does not list. -/
def sampleProxyTargets : OrdMap String (TargetPosition ℚ) :=
  (((∅ : OrdMap String (TargetPosition ℚ)).insert "1000PEPEUSDT" ⟨false, -2, 2⟩).insert "BTCUSDT"
    ⟨true, 0, -1⟩).insert "MISSINGUSDT" ⟨false, 7, 0⟩

def sampleRule : MarketRule where
  status := "Trading"
  baseAsset := "BTC"
  quoteAsset := "USDT"
  priceTick := "0.001"
  qtyStep := "0.001"
  minQty := "0.001"
  minNotional := none
  contractMultiplier := none

def sampleRules : MarketRulesSnapshot where
  venue := "bybit-futures"
  executionBackend := "native"
  portfolioId := none
  fetchedAtUs := 1000000
  symbols := ((∅ : OrdMap String MarketRule).insert "BTCUSDT" sampleRule).insert "PEPEUSDT" sampleRule

def sampleProxyConfig : TargetProxyConfig ℚ where
  symbolMappings := (∅ : OrdMap String (ContractMapping ℚ)).insert "1000PEPEUSDT"
    ⟨"PEPEUSDT", 1000, 1⟩

/-- Both legs of one spread. -/
def sampleCrossTargets : OrdMap String (TargetPosition ℚ) :=
  ((∅ : OrdMap String (TargetPosition ℚ)).insert "okex-futures:ETHUSDT" ⟨false, 2, 0⟩).insert
    "binance-futures:ETHUSDT" ⟨false, -2, 1⟩

def sampleVenue (venue : String) : ProxySource ℚ where
  id := "account"
  venue := venue
  sourceValues := .ok ∅
  targetProxy := none

end

end CtaManager.Exec
