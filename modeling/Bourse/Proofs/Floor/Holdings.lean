import Bourse.Proofs.Floor.Commits

/-!
# What Users Hold

Whatever has happened on the floor, no user owes anything: cash and positions are
valid amounts and not negative, whatever the prices were. The symbols of a portfolio
are those of the configuration, neither more nor less, and what is not traded about
a user stays as it was when the account was created.

Both follow from documents being replays. A trade keeps a solvent portfolio solvent
and takes no symbol away and adds none, so a replay does; nothing has to be said
about steps, copies or conflicts again.

## Theorems

* `Descends.solvent`, `Descends.mem_keys`: what a document holds.
* `holdings_of_run`: what every user holds after any run.
-/

namespace Bourse

namespace Floor

variable {config : TradingConfig} {f : Floor} {id : String} {v : Versioned User} {u : User}

/-- Whoever starts without debts never has any. -/
theorem Descends.solvent (h : f.Descends config id v u) (hcash : config.startingCash.Sound) :
    v.value.portfolio.Solvent := by
  rcases h.account with ⟨x, time, hof, rfl⟩
  have hseeded : (x.account time).portfolio.Solvent := by
    refine Portfolio.solvent_seeded ?_ x.symbols
    rw [hof.startingCash]
    exact hcash
  exact Portfolio.solvent_replay (User.isReplay_of_replay h.replay).portfolio hseeded

/-- The symbols of a user are those of the configuration. -/
theorem Descends.mem_keys (h : f.Descends config id v u) (s : String) :
    s ∈ v.value.portfolio.positions.keys ↔ s ∈ config.supportedSymbols := by
  rcases h.account with ⟨x, time, hof, rfl⟩
  have hseeded : s ∈ (x.account time).portfolio.positions.keys ↔ s ∈ config.supportedSymbols := by
    rw [← hof.symbols]
    exact Portfolio.mem_keys_seeded
  rw [Portfolio.mem_keys_replay (User.isReplay_of_replay h.replay).portfolio]
  exact hseeded

/-- After any run, with requests and prices of any kind, every user holds valid amounts of at least
zero in just the symbols of the configuration, and is stored under their id with the name, the
address and the time of the one document that was created for them. -/
theorem holdings_of_run {actions : List Action} (hcash : config.startingCash.Sound)
    (h : (opened config).run? config actions = some f)
    (hv : f.books.store.user? id = some v) :
    (v.value.portfolio.cash.isValid = true ∧ v.value.portfolio.cash.isNegative = false) ∧
      (∀ s a, v.value.portfolio.position? s = some a →
        a.isValid = true ∧ a.isNegative = false) ∧
      (∀ s, s ∈ v.value.portfolio.positions.keys ↔ s ∈ config.supportedSymbols) ∧
      v.value.id = id ∧
      ∃ u, f.openings id = [u] ∧ v.value.displayName = u.displayName ∧
        v.value.profileUrl = u.profileUrl ∧ v.value.createdAt = u.createdAt := by
  rcases kept_of_run? h with ⟨-, hkept⟩
  rcases hkept.stored id v hv with ⟨u, hu⟩
  have hreplay := User.isReplay_of_replay hu.replay
  have hsolvent := hu.solvent hcash
  refine ⟨hsolvent.cash, hsolvent.positions, hu.mem_keys, ?_, u, hu.openings, hreplay.displayName,
    hreplay.profileUrl, hreplay.createdAt⟩
  rw [hreplay.id, hu.key]

/-- A purchase at a price below zero, which adds to the cash. -/
def windfall : List Action :=
  [.enter (.account ⟨"alice", "Alice", "alice.png"⟩), .call 0 0,
    .hear 0 (.clock ⟨0, ⟨0, 0⟩⟩), .call 0 0,
    .enter (.trade 0 "alice" ⟨.buy, "BTC", some ⟨0, 333333333⟩⟩ true),
    .hear 1 (.price (.ok ⟨-3, -500000001⟩)), .hear 1 (.clock ⟨1, ⟨1, 0⟩⟩), .call 1 1, .call 1 1]

/-- Nobody owes anything after a purchase at a price below zero. -/
theorem holdings_of_run_windfall :
    ∃ f v u, (opened .standard).run? .standard windfall = some f ∧
      f.books.store.user? "alice" = some v ∧ v.version = 2 ∧
      v.value.portfolio.cash = ⟨100001, 166666665⟩ ∧
      v.value.portfolio.cash.isNegative = false ∧
      (∀ s, s ∈ v.value.portfolio.positions.keys ↔ s ∈ ["BTC", "ETH", "DOGE"]) ∧
      f.openings "alice" = [u] ∧ v.value.createdAt = u.createdAt := by
  obtain ⟨f, v, hrun, hv, hversion, hamount⟩ : ∃ f v,
      (opened .standard).run? .standard windfall = some f ∧ f.books.store.user? "alice" = some v ∧
        v.version = 2 ∧ v.value.portfolio.cash = ⟨100001, 166666665⟩ :=
    ⟨_, _, rfl, rfl, rfl, by decide +kernel⟩
  rcases holdings_of_run (by decide : TradingConfig.standard.startingCash.Sound) hrun hv with
    ⟨hcash, -, hkeys, -, u, hopenings, -, -, htime⟩
  exact ⟨f, v, u, hrun, hv, hversion, hamount, hcash.2, hkeys, hopenings, htime⟩

end Floor

end Bourse
