import SelectPlan.Parser.Feed
import SelectPlan.Proofs.Scanner.Symbols

/-!
# What feeds offer

A feed offers a list of lexemes if it will hand out these, in this order, as far
as the list goes.  How a feed keeps its place is of no concern to a parser; all
it relies on are the laws of `LawfulFeed`.  A scanner with room for one lexeme
and a list with a place in it both obey them, and each offers the lexemes of its
text (`offers_ofText`, `offers_listing`).

Nothing is said about a feed past the end of the list.  So a law about lists of
lexemes is at the same time a law about the lexemes that were looked at: what
comes after them does not occur in it.
-/

namespace SelectPlan

/-- The laws by which a feed hands out lexemes. -/
class LawfulFeed (σ : Type) [Feed σ] where
  /-- The feed hands out these lexemes next. -/
  Offers : σ → List Lexeme → Prop
  offers_prefix : ∀ {feed first second}, Offers feed (first ++ second) → Offers feed first
  scan_eq : ∀ {feed lexeme rest}, Offers feed (lexeme :: rest) → (Feed.scan feed).1 = lexeme
  offers_scan : ∀ {feed lexeme rest}, Offers feed (lexeme :: rest) →
    Offers (Feed.scan feed).2 rest
  offers_unscan : ∀ {feed lexeme rest}, Offers feed (lexeme :: rest) →
    Offers (Feed.unscan (Feed.scan feed).2) (lexeme :: rest)

/-- A feed that offers lexemes obeys the laws, whether they are asked for or not. -/
theorem LawfulFeed.offers_nil {σ : Type} [Feed σ] [LawfulFeed σ] {feed : σ}
    {lexemes : List Lexeme} (h : Offers feed lexemes) : Offers feed [] :=
  offers_prefix (List.nil_append lexemes ▸ h)

/-! ## A scanner with one lexeme put back -/

namespace Pushback

/-- The lexemes to come: the one put back, if there is one, and those of the
scanner. -/
def upcoming (feed : Pushback) : List Lexeme :=
  if feed.pending then feed.last :: feed.scanner.lexemes else feed.scanner.lexemes

theorem scan_of_not_pending {feed : Pushback} (h : ¬ feed.pending = true) :
    feed.scan = (feed.scanner.scan.1, ⟨feed.scanner.scan.2, feed.scanner.scan.1, false⟩) := by
  rw [scan, if_neg h]

theorem scan_of_pending {feed : Pushback} (h : feed.pending = true) :
    feed.scan = (feed.last, { feed with pending := false }) := by
  rw [scan, if_pos h]

theorem exists_lexemes_eq (scanner : Scanner) :
    ∃ rest, scanner.lexemes = scanner.scan.1 :: rest ∧ rest <+: scanner.scan.2.lexemes := by
  by_cases h : scanner.scan.1.token = .eof
  · exact ⟨[], Scanner.lexemes_of_eof h, List.nil_prefix⟩
  · exact ⟨_, Scanner.lexemes_of_ne_eof h, List.prefix_rfl⟩

/-- The first lexeme to come is the one handed out, and those after it come
next. -/
theorem exists_upcoming_eq (feed : Pushback) :
    ∃ rest, feed.upcoming = feed.scan.1 :: rest ∧ rest <+: feed.scan.2.upcoming := by
  by_cases h : feed.pending = true
  · refine ⟨feed.scanner.lexemes, ?_, ?_⟩
    · rw [scan_of_pending h, upcoming, if_pos h]
    · rw [scan_of_pending h, upcoming]
      exact List.prefix_rfl
  · obtain ⟨rest, hrest, hsuffix⟩ := exists_lexemes_eq feed.scanner
    refine ⟨rest, ?_, ?_⟩
    · rw [scan_of_not_pending h, upcoming, if_neg h]
      exact hrest
    · rw [scan_of_not_pending h, upcoming]
      exact hsuffix

theorem upcoming_unscan_scan (feed : Pushback) :
    ∃ rest, feed.upcoming = feed.scan.1 :: rest ∧
      feed.scan.1 :: rest <+: feed.scan.2.unscan.upcoming := by
  obtain ⟨rest, hupcoming, -⟩ := exists_upcoming_eq feed
  refine ⟨rest, hupcoming, ?_⟩
  by_cases h : feed.pending = true
  · have hsame : feed.scan.2.unscan.upcoming = feed.upcoming := by
      rw [scan_of_pending h, unscan, upcoming, upcoming, if_pos rfl, if_pos h]
    rw [hsame]
    exact hupcoming ▸ List.prefix_rfl
  · obtain ⟨rest', hrest', hsuffix⟩ := exists_lexemes_eq feed.scanner
    rw [scan_of_not_pending h] at hupcoming ⊢
    rw [upcoming, if_neg h, hrest'] at hupcoming
    rw [(List.cons.inj hupcoming).2] at hsuffix
    rw [unscan, upcoming, if_pos rfl]
    exact (List.prefix_cons_inj _).mpr hsuffix

end Pushback

instance : LawfulFeed Pushback where
  Offers feed lexemes := lexemes <+: feed.upcoming
  offers_prefix h := (List.prefix_append _ _).trans h
  scan_eq := by
    intro feed lexeme rest h
    obtain ⟨others, hupcoming, -⟩ := Pushback.exists_upcoming_eq feed
    rw [hupcoming] at h
    exact (List.cons_prefix_cons.mp h).1.symm
  offers_scan := by
    intro feed lexeme rest h
    obtain ⟨others, hupcoming, hothers⟩ := Pushback.exists_upcoming_eq feed
    rw [hupcoming] at h
    exact (List.cons_prefix_cons.mp h).2.trans hothers
  offers_unscan := by
    intro feed lexeme rest h
    obtain ⟨others, hupcoming, hothers⟩ := Pushback.upcoming_unscan_scan feed
    rw [hupcoming] at h
    exact h.trans hothers

/-- A feed at the start of a text offers all its lexemes. -/
theorem offers_ofText (text : String) :
    LawfulFeed.Offers ({ scanner := Scanner.ofText text } : Pushback) (Scanner.tokenize text) :=
  List.prefix_rfl

/-! ## A list with a place in it -/

instance : LawfulFeed Listing where
  Offers feed lexemes := lexemes <+: feed.ahead
  offers_prefix h := (List.prefix_append _ _).trans h
  scan_eq := by
    rintro ⟨passed, ahead⟩ lexeme rest ⟨more, rfl⟩
    rfl
  offers_scan := by
    rintro ⟨passed, ahead⟩ lexeme rest ⟨more, rfl⟩
    exact List.prefix_append rest more
  offers_unscan := by
    rintro ⟨passed, ahead⟩ lexeme rest ⟨more, rfl⟩
    exact List.prefix_append (lexeme :: rest) more

/-- A list at its start offers all its lexemes. -/
theorem offers_listing (lexemes : List Lexeme) :
    LawfulFeed.Offers ({ ahead := lexemes } : Listing) lexemes :=
  List.prefix_rfl

end SelectPlan
