import Bourse.Document
import Bourse.Proofs.Json.Fields
import Bourse.Proofs.Json.Reading
import Bourse.Proofs.Table

/-!
# Documents Survive Their Text

Whatever is kept as a document is read back from its text as it was: amounts valid or not,
portfolios with any symbols, names with any characters, times before the year 0 and leap
seconds. So two values never have the same text.

There is one exception, nanoseconds past a billion in a second that does not end a minute. A
timestamp can hold them, but no text can tell them from the second after. A document with such
a time is written like the one with the second after, and that is what it is read back as.

The one field that older documents lack is the statistics of a user. Reading such a document
gives what the same document with empty statistics gives, be that a user or nothing.

## Main definitions

* `Format`: how some data is written and read, and which of its values there are.
* `Format.Faithful`: whatever is written is read back, and no two values are written alike.
* `Document.amount`, `Document.portfolio`, `Document.user` and so on: the formats.

## Theorems

* `Format.faithful`: a format is faithful if its decoder undoes its encoder.
* `decodeUser?_insert`: empty statistics may be left out of an object.
* `documents_survive`: all formats are faithful, and statistics may be left out.
* `not_survives_stray`: a time that no text names is read back as another.
-/

namespace Bourse

open Json

/-- How data is kept as JSON. -/
structure Format (α : Type) where
  encode : α → Json
  decode? : Json → Option α
  /-- The values there can be: timestamps whose second exists, counts that have 64 bits. -/
  Exists : α → Prop
  /-- Those of which a text can tell the times: only the end of a minute is a leap second. -/
  Holds : α → Prop
  /-- The value as its text has it. -/
  settle : α → α

namespace Format

variable {α : Type} (f : Format α)

/-- The text of a value. -/
def write (a : α) : String := (f.encode a).text

/-- The value of a text. -/
def read? (s : String) : Option α := (parse s).bind f.decode?

/-- Whatever is written is read back, and no two values are written alike; and whatever else there
can be is written like a value of these. -/
structure Faithful : Prop where
  read_write : ∀ a, f.Holds a → f.read? (f.write a) = some a
  write_injective : ∀ a b, f.Holds a → f.Holds b → f.write a = f.write b → a = b
  settle_eq : ∀ a, f.Holds a → f.settle a = a
  holds_settle : ∀ a, f.Exists a → f.Holds (f.settle a)
  write_settle : ∀ a, f.Exists a → f.write (f.settle a) = f.write a

variable {f}

/-- A format is faithful if its decoder undoes its encoder on values that have a text, and its
encoder takes every value as its text has it. -/
theorem faithful (hplain : ∀ a, Plain (f.encode a))
    (hdecode : ∀ a, f.Holds a → f.decode? (f.encode a) = some a)
    (hself : ∀ a, f.Holds a → f.settle a = a) (hholds : ∀ a, f.Exists a → f.Holds (f.settle a))
    (hencode : ∀ a, f.Exists a → f.encode (f.settle a) = f.encode a) : f.Faithful := by
  have hread : ∀ a, f.Holds a → f.read? (f.write a) = some a := by
    intro a ha
    rw [read?, write, parse_text (hplain a), Option.bind_some, hdecode a ha]
  refine ⟨hread, fun a b ha hb heq => ?_, hself, hholds, fun a ha => ?_⟩
  · have hboth := hread a ha
    rw [heq, hread b hb] at hboth
    exact (Option.some.inj hboth).symm
  · rw [write, write, hencode a ha]

end Format

namespace TradeStats

/-- Counts have 64 bits, and the last trade was at a time that there can be. -/
structure Representable (s : TradeStats) : Prop where
  lastTrade : ∀ t ∈ s.lastTrade, t.Representable
  count_lt : s.count < UInt64.size

/-- Counts have 64 bits, and the last trade was at a time that a clock can give. -/
structure WellFormed (s : TradeStats) : Prop where
  lastTrade : ∀ t ∈ s.lastTrade, t.WellFormed
  count_lt : s.count < UInt64.size

/-- The statistics as their text has them. -/
def settled (s : TradeStats) : TradeStats := { s with lastTrade := s.lastTrade.map (·.settled) }

theorem settled_of_wellFormed {s : TradeStats} (h : s.WellFormed) : s.settled = s := by
  have hlast : s.lastTrade.map (·.settled) = s.lastTrade :=
    (Option.map_congr fun t ht => Timestamp.settled_of_wellFormed (h.lastTrade t ht)).trans
      Option.map_id'
  rw [settled, hlast]

theorem wellFormed_settled {s : TradeStats} (h : s.Representable) : s.settled.WellFormed := by
  refine ⟨fun t ht => ?_, h.count_lt⟩
  rcases Option.map_eq_some_iff.1 ht with ⟨t', ht', rfl⟩
  exact Timestamp.wellFormed_settled (h.lastTrade t' ht')

end TradeStats

namespace Document

/-! ## The formats -/

/-- The format of amounts. -/
def amount : Format Amount := ⟨encodeAmount, decodeAmount?, fun _ => True, fun _ => True, id⟩

/-- The format of portfolios. -/
def portfolio : Format Portfolio :=
  ⟨encodePortfolio, decodePortfolio?, fun _ => True, fun _ => True, id⟩

/-- The format of sides. -/
def side : Format Side := ⟨encodeSide, decodeSide?, fun _ => True, fun _ => True, id⟩

/-- The format of entries of a trade log. -/
def record : Format TradeRecord :=
  ⟨encodeRecord, decodeRecord?, fun r => r.timestamp.Representable,
    fun r => r.timestamp.WellFormed, fun r => { r with timestamp := r.timestamp.settled }⟩

/-- The format of statistics. -/
def stats : Format TradeStats :=
  ⟨encodeStats, decodeStats?, fun s => s.Representable, fun s => s.WellFormed, fun s => s.settled⟩

/-- The format of users. -/
def user : Format User :=
  ⟨encodeUser, decodeUser?, fun u => u.createdAt.Representable ∧ u.tradeStats.Representable,
    fun u => u.createdAt.WellFormed ∧ u.tradeStats.WellFormed,
    fun u => { u with createdAt := u.createdAt.settled, tradeStats := u.tradeStats.settled }⟩

/-- The format of quotes. -/
def quote : Format Quote :=
  ⟨encodeQuote, decodeQuote?, fun q => q.observedAt.Representable,
    fun q => q.observedAt.WellFormed, fun q => { q with observedAt := q.observedAt.settled }⟩

/-- The format of snapshots. -/
def snapshot : Format Snapshot :=
  ⟨encodeSnapshot, decodeSnapshot?, fun s => s.timestamp.Representable,
    fun s => s.timestamp.WellFormed, fun s => { s with timestamp := s.timestamp.settled }⟩

/-! ## What encoders write -/

theorem plain_ofInt (n : Int) : Plain (ofInt n) := .integer n

theorem plain_ofTimestamp (t : Timestamp) : Plain (ofTimestamp t) := .string t.rfc3339

theorem plain_encodeAmount (a : Amount) : Plain (encodeAmount a) := by
  refine .object _ (fun m hm => ?_)
  simp only [List.mem_cons, List.not_mem_nil, or_false] at hm
  rcases hm with rfl | rfl
  · exact plain_ofInt _
  · exact plain_ofInt _

theorem plain_encodePortfolio (p : Portfolio) : Plain (encodePortfolio p) := by
  refine .object _ (fun m hm => ?_)
  simp only [List.mem_cons, List.not_mem_nil, or_false] at hm
  rcases hm with rfl | rfl
  · exact plain_encodeAmount _
  · refine .object _ (fun m hm => ?_)
    rcases List.mem_map.1 hm with ⟨e, -, rfl⟩
    exact plain_encodeAmount _

theorem plain_encodeStats (s : TradeStats) : Plain (encodeStats s) := by
  refine .object _ (fun m hm => ?_)
  simp only [List.mem_cons, List.not_mem_nil, or_false] at hm
  rcases hm with rfl | rfl
  · cases s.lastTrade with
    | none => exact .null
    | some t => exact plain_ofTimestamp t
  · exact plain_ofInt _

theorem plain_encodeRecord (r : TradeRecord) : Plain (encodeRecord r) := by
  refine .object _ (fun m hm => ?_)
  simp only [List.mem_cons, List.not_mem_nil, or_false] at hm
  rcases hm with rfl | rfl | rfl | rfl | rfl
  · exact plain_ofTimestamp _
  · exact .string _
  · exact .string _
  · exact plain_encodeAmount _
  · exact plain_encodeAmount _

theorem plain_encodeUser (u : User) : Plain (encodeUser u) := by
  refine .object _ (fun m hm => ?_)
  simp only [List.mem_cons, List.not_mem_nil, or_false] at hm
  rcases hm with rfl | rfl | rfl | rfl | rfl | rfl
  · exact .string _
  · exact .string _
  · exact .string _
  · exact plain_ofTimestamp _
  · exact plain_encodePortfolio _
  · exact plain_encodeStats _

theorem plain_encodeQuote (q : Quote) : Plain (encodeQuote q) := by
  refine .object _ (fun m hm => ?_)
  simp only [List.mem_cons, List.not_mem_nil, or_false] at hm
  rcases hm with rfl | rfl | rfl
  · exact .string _
  · exact plain_encodeAmount _
  · exact plain_ofTimestamp _

theorem plain_encodeSnapshot (s : Snapshot) : Plain (encodeSnapshot s) := by
  refine .object _ (fun m hm => ?_)
  simp only [List.mem_cons, List.not_mem_nil, or_false] at hm
  rcases hm with rfl | rfl
  · exact plain_ofTimestamp _
  · exact plain_encodeAmount _

/-! ## Decoders undo encoders -/

theorem decodeAmount?_encode (a : Amount) : decodeAmount? (encodeAmount a) = some a := by
  rw [decodeAmount?, encodeAmount, fields?_ofMembers _ (by rfl) (by decide)]
  simp only [List.map_cons, List.map_nil, Option.bind_eq_bind, Option.bind_some, required?,
    int64?_ofInt, int32?_ofInt, Int64.ofInt_toInt, Int32.ofInt_toInt]

theorem decodePortfolio?_encode (p : Portfolio) :
    decodePortfolio? (encodePortfolio p) = some p := by
  rw [decodePortfolio?, encodePortfolio, fields?_ofMembers _ (by rfl) (by decide)]
  simp only [List.map_cons, List.map_nil, Option.bind_eq_bind, Option.bind_some, required?,
    decodeAmount?_encode, table?_ofMembers _ (fun e _ => decodeAmount?_encode e.2),
    Table.ofList_entries]

theorem decodeSide?_encode (s : Side) : decodeSide? (encodeSide s) = some s := by
  cases s <;> rfl

theorem decodeStats?_encode {s : TradeStats} (h : s.WellFormed) :
    decodeStats? (encodeStats s) = some s := by
  have htime : (ofOption ofTimestamp s.lastTrade).optional? timestamp? = some s.lastTrade :=
    optional?_ofOption (fun t ht => ⟨timestamp?_ofTimestamp (h.lastTrade t ht), Json.noConfusion⟩)
  rw [decodeStats?, encodeStats, fields?_ofMembers _ (by rfl) (by decide)]
  simp only [List.map_cons, List.map_nil, Option.bind_eq_bind, Option.bind_some, required?,
    withDefault?, htime, nat?_ofNat h.count_lt]

theorem decodeRecord?_encode {r : TradeRecord} (h : r.timestamp.WellFormed) :
    decodeRecord? (encodeRecord r) = some r := by
  rw [decodeRecord?, encodeRecord, fields?_ofMembers _ (by rfl) (by decide)]
  simp only [List.map_cons, List.map_nil, Option.bind_eq_bind, Option.bind_some, required?,
    timestamp?_ofTimestamp h, string?_ofString, decodeSide?_encode, decodeAmount?_encode]

theorem decodeUser?_encode {u : User} (htime : u.createdAt.WellFormed)
    (hstats : u.tradeStats.WellFormed) : decodeUser? (encodeUser u) = some u := by
  rw [decodeUser?, encodeUser, fields?_ofMembers _ (by rfl) (by decide)]
  simp only [List.map_cons, List.map_nil, Option.bind_eq_bind, Option.bind_some, required?,
    withDefault?, timestamp?_ofTimestamp htime, string?_ofString, decodePortfolio?_encode,
    decodeStats?_encode hstats]

theorem decodeQuote?_encode {q : Quote} (h : q.observedAt.WellFormed) :
    decodeQuote? (encodeQuote q) = some q := by
  rw [decodeQuote?, encodeQuote, fields?_ofMembers _ (by rfl) (by decide)]
  simp only [List.map_cons, List.map_nil, Option.bind_eq_bind, Option.bind_some, required?,
    timestamp?_ofTimestamp h, string?_ofString, decodeAmount?_encode]

theorem decodeSnapshot?_encode {s : Snapshot} (h : s.timestamp.WellFormed) :
    decodeSnapshot? (encodeSnapshot s) = some s := by
  rw [decodeSnapshot?, encodeSnapshot, fields?_ofMembers _ (by rfl) (by decide)]
  simp only [List.map_cons, List.map_nil, Option.bind_eq_bind, Option.bind_some, required?,
    timestamp?_ofTimestamp h, decodeAmount?_encode]

/-! ## Encoders write what a text can tell -/

theorem ofTimestamp_settled {t : Timestamp} (h : t.Representable) :
    ofTimestamp t.settled = ofTimestamp t := by
  rw [ofTimestamp, ofTimestamp, Timestamp.rfc3339_settled h]

theorem encodeStats_settled {s : TradeStats} (h : s.Representable) :
    encodeStats s.settled = encodeStats s := by
  have hlast : ofOption ofTimestamp s.settled.lastTrade = ofOption ofTimestamp s.lastTrade := by
    rw [TradeStats.settled]
    cases htime : s.lastTrade with
    | none => rfl
    | some t => exact ofTimestamp_settled (h.lastTrade t htime)
  rw [encodeStats, hlast]
  rfl

/-! ## Documents with times -/

theorem faithful_record : record.Faithful := by
  refine Format.faithful plain_encodeRecord (fun _ h => decodeRecord?_encode h) (fun r h => ?_)
    (fun _ h => Timestamp.wellFormed_settled h) (fun r h => ?_)
  · exact congrArg (fun t => { r with timestamp := t }) (Timestamp.settled_of_wellFormed h)
  · simp only [record, encodeRecord, ofTimestamp_settled h]

theorem faithful_stats : stats.Faithful :=
  Format.faithful plain_encodeStats (fun _ h => decodeStats?_encode h)
    (fun _ h => TradeStats.settled_of_wellFormed h) (fun _ h => TradeStats.wellFormed_settled h)
    (fun _ h => encodeStats_settled h)

theorem faithful_user : user.Faithful := by
  refine Format.faithful plain_encodeUser (fun _ h => decodeUser?_encode h.1 h.2) (fun u h => ?_)
    (fun _ h => ⟨Timestamp.wellFormed_settled h.1, TradeStats.wellFormed_settled h.2⟩)
    (fun u h => ?_)
  · simp only [user, Timestamp.settled_of_wellFormed h.1, TradeStats.settled_of_wellFormed h.2]
  · simp only [user, encodeUser, ofTimestamp_settled h.1, encodeStats_settled h.2]

theorem faithful_quote : quote.Faithful := by
  refine Format.faithful plain_encodeQuote (fun _ h => decodeQuote?_encode h) (fun q h => ?_)
    (fun _ h => Timestamp.wellFormed_settled h) (fun q h => ?_)
  · exact congrArg (fun t => { q with observedAt := t }) (Timestamp.settled_of_wellFormed h)
  · simp only [quote, encodeQuote, ofTimestamp_settled h]

theorem faithful_snapshot : snapshot.Faithful := by
  refine Format.faithful plain_encodeSnapshot (fun _ h => decodeSnapshot?_encode h) (fun s h => ?_)
    (fun _ h => Timestamp.wellFormed_settled h) (fun s h => ?_)
  · exact congrArg (fun t => { s with timestamp := t }) (Timestamp.settled_of_wellFormed h)
  · simp only [snapshot, encodeSnapshot, ofTimestamp_settled h]

/-! ## Users without statistics -/

/-- The fields of a user. -/
def userFields : List String :=
  ["id", "display_name", "profile_url", "created_at", "portfolio", "trade_stats"]

theorem userFields_index {m : Option String × Json} (h : m.1 ≠ some "trade_stats") :
    ¬ Names userFields 5 m := by
  intro hname
  rcases Option.bind_eq_some_iff.1 hname with ⟨name, hm, hindex⟩
  have hget : userFields[5]? = some name := by
    rcases List.idxOf?_eq_some_iff.1 hindex with ⟨hlt, hget, -⟩
    rw [List.getElem?_eq_getElem hlt, hget]
  rw [hm, ← hget] at h
  exact h rfl

theorem wellFormed_empty : TradeStats.empty.WellFormed := by
  refine ⟨fun t ht => ?_, by decide⟩
  cases ht

theorem decodeStats?_empty : decodeStats? (encodeStats .empty) = some .empty :=
  decodeStats?_encode wellFormed_empty

/-- Empty statistics may be left out of an object, whatever else stands in it. -/
theorem decodeUser?_insert (before after : List (Option String × Json))
    (h : ∀ m ∈ before ++ after, m.1 ≠ some "trade_stats") :
    decodeUser? (.object (before ++ (some "trade_stats", encodeStats .empty) :: after)) =
      decodeUser? (.object (before ++ after)) := by
  have hinsert := place_insert before after (encodeStats .empty)
    (show userFields.idxOf? "trade_stats" = some 5 by decide)
    (show (userFields.map (fun _ => none))[5]? = some none from rfl)
    (fun m hm => userFields_index (h m (List.mem_append_left _ hm)))
    (fun m hm => userFields_index (h m (List.mem_append_right _ hm)))
  rw [decodeUser?, decodeUser?, ← userFields, fields?, fields?, hinsert]
  cases hplace : place userFields (before ++ after) (userFields.map (fun _ => none)) with
  | none => rfl
  | some r =>
      -- Nobody has given the last field a value.
      rcases place_eq_some hplace (fun m hm => userFields_index (h m hm)) with ⟨hlength, hlast⟩
      rcases r with _ | ⟨id, _ | ⟨displayName, _ | ⟨profileUrl, _ | ⟨createdAt, _ | ⟨portfolio,
        _ | ⟨tradeStats, _ | ⟨more, rest⟩⟩⟩⟩⟩⟩⟩
      case cons.cons.cons.cons.cons.cons.nil =>
        have hnone : tradeStats = none := Option.some.inj hlast
        simp only [hnone, Option.map_some, Option.bind_eq_bind, Option.bind_some,
          List.set_cons_succ, List.set_cons_zero, withDefault?, decodeStats?_empty]
      all_goals cases hlength

/-- Nor need they stand at the end of an array. -/
theorem decodeUser?_append {l : List Json} (h : l.length = 5) :
    decodeUser? (.array (l ++ [encodeStats .empty])) = decodeUser? (.array l) := by
  match l, h with
  | [id, displayName, profileUrl, createdAt, portfolio], _ =>
    have hwhole : (Json.array [id, displayName, profileUrl, createdAt, portfolio,
        encodeStats .empty]).fields? userFields = some [some id, some displayName,
          some profileUrl, some createdAt, some portfolio, some (encodeStats .empty)] := rfl
    have hshort : (Json.array [id, displayName, profileUrl, createdAt, portfolio]).fields?
        userFields = some [some id, some displayName, some profileUrl, some createdAt,
          some portfolio, none] := rfl
    rw [decodeUser?, decodeUser?, ← userFields, List.cons_append, List.cons_append,
      List.cons_append, List.cons_append, List.cons_append, List.nil_append, hwhole, hshort]
    simp only [Option.bind_eq_bind, Option.bind_some, withDefault?, decodeStats?_empty]

/-- The document of a user without the statistics. -/
def encodeBare (u : User) : Json :=
  ofMembers
    [("id", ofString u.id), ("display_name", ofString u.displayName),
     ("profile_url", ofString u.profileUrl), ("created_at", ofTimestamp u.createdAt),
     ("portfolio", encodePortfolio u.portfolio)]

theorem plain_encodeBare (u : User) : Plain (encodeBare u) := by
  refine .object _ (fun m hm => ?_)
  simp only [List.mem_cons, List.not_mem_nil, or_false] at hm
  rcases hm with rfl | rfl | rfl | rfl | rfl
  · exact .string _
  · exact .string _
  · exact .string _
  · exact plain_ofTimestamp _
  · exact plain_encodePortfolio _

/-- A user whose document has no statistics is read as one who never traded. -/
theorem read?_encodeBare {u : User} (h : u.createdAt.WellFormed) :
    user.read? (encodeBare u).text = some { u with tradeStats := .empty } := by
  have hbare := decodeUser?_insert
    [(some "id", ofString u.id), (some "display_name", ofString u.displayName),
      (some "profile_url", ofString u.profileUrl), (some "created_at", ofTimestamp u.createdAt),
      (some "portfolio", encodePortfolio u.portfolio)] [] (by
        intro m hm
        simp only [List.append_nil, List.mem_cons, List.not_mem_nil, or_false] at hm
        rcases hm with rfl | rfl | rfl | rfl | rfl <;> exact mt Option.some.inj (by decide))
  have hwhole := decodeUser?_encode (u := { u with tradeStats := .empty }) h wellFormed_empty
  rw [Format.read?, parse_text (plain_encodeBare u), Option.bind_some]
  exact hbare.symm.trans hwhole

/-- Documents survive their text: whatever is written is read back, no two values are written
alike, and the statistics of a user may be left out where they are empty. What has a time that no
text can tell is written like the same with the second after. -/
theorem documents_survive :
    amount.Faithful ∧ portfolio.Faithful ∧ side.Faithful ∧ record.Faithful ∧ stats.Faithful ∧
      user.Faithful ∧ quote.Faithful ∧ snapshot.Faithful ∧
    (∀ before after : List (Option String × Json),
      (∀ m ∈ before ++ after, m.1 ≠ some "trade_stats") →
        user.decode? (.object (before ++ after)) =
          user.decode? (.object (before ++ (some "trade_stats", encodeStats .empty) :: after))) ∧
    (∀ l : List Json, l.length = 5 →
      user.decode? (.array l) = user.decode? (.array (l ++ [encodeStats .empty]))) ∧
    (∀ u : User, u.createdAt.WellFormed →
      user.read? (encodeBare u).text = some { u with tradeStats := .empty }) :=
  ⟨Format.faithful plain_encodeAmount (fun a _ => decodeAmount?_encode a) (fun _ _ => rfl)
      (fun _ h => h) (fun _ _ => rfl),
    Format.faithful plain_encodePortfolio (fun p _ => decodePortfolio?_encode p) (fun _ _ => rfl)
      (fun _ h => h) (fun _ _ => rfl),
    Format.faithful (fun s => .string s.name) (fun s _ => decodeSide?_encode s) (fun _ _ => rfl)
      (fun _ h => h) (fun _ _ => rfl),
    faithful_record, faithful_stats, faithful_user, faithful_quote, faithful_snapshot,
    fun before after h => (decodeUser?_insert before after h).symm,
    fun _ h => (decodeUser?_append h).symm, fun _ h => read?_encodeBare h⟩

/-- A user with characters that are escaped, opened in a leap second, with the largest debts
there are, positions whose symbols are no names, and a last trade before the year 0. -/
def traveller : User where
  id := "a\"b\\c\n\x01"
  displayName := "\u00e9 \u20ac"
  profileUrl := ""
  createdAt := ⟨1483228799, 1500000000⟩
  portfolio := ⟨⟨Int64.minValue, Int32.minValue⟩, .ofList [("Z", ⟨0, -1⟩), ("", ⟨7, 0⟩)]⟩
  tradeStats := ⟨some ⟨-62167219201, 1⟩, UInt64.size - 1⟩

theorem documents_survive_traveller :
    user.Holds traveller ∧ user.read? (user.write traveller) = some traveller := by
  have hstats : traveller.tradeStats.WellFormed := by
    refine ⟨fun t ht => ?_, by decide⟩
    rw [← Option.some.inj ht]
    decide
  have holds : user.Holds traveller := ⟨by decide, hstats⟩
  rcases documents_survive with ⟨-, -, -, -, -, huser, -⟩
  exact ⟨holds, huser.read_write traveller holds⟩

/-- A quote with nanoseconds past a billion in the 56th second of a minute. -/
def stray : Quote := ⟨"BTC", .ofUnits 30000, ⟨1619872496, 1500000000⟩⟩

/-- The same in the second after. -/
def settledStray : Quote := ⟨"BTC", .ofUnits 30000, ⟨1619872497, 500000000⟩⟩

/-- Not all that there can be is read back, and two values may be written alike. -/
theorem not_survives_stray :
    ¬(∀ q, quote.Exists q → quote.read? (quote.write q) = some q) ∧
    ¬(∀ p q, quote.Exists p → quote.Exists q → quote.write p = quote.write q → p = q) := by
  have hstray : stray.observedAt.Representable := by decide
  have hsettled : settledStray.observedAt.WellFormed := by decide
  have hdiffer : settledStray ≠ stray := by decide
  have hsame : quote.write settledStray = quote.write stray :=
    faithful_quote.write_settle stray hstray
  refine ⟨fun hread => hdiffer ?_, fun hinjective => hdiffer ?_⟩
  · have hback := faithful_quote.read_write settledStray hsettled
    rw [hsame, hread stray hstray] at hback
    exact (Option.some.inj hback).symm
  · exact hinjective settledStray stray ⟨hsettled.exists_second, hsettled.nanos_lt⟩ hstray hsame

end Document

end Bourse
