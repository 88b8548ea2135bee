import Livtet.Filters
import Livtet.SavedSearch
import Livtet.Lib.EscapedWords

/-! # Free text

    What a reader types is escaped before it reaches the query parser, so that each word
    is looked for as it stands. The parser is another's; what is assumed of it is how it
    reads words.

    The escapes leave out two characters that stand in no word, three that start none,
    and the words that are operators. A text is searched literally exactly if none of
    these is in it (`searchedLiterally_iff`). -/

namespace FreeText

open BoolQuery SavedSearch SearchIndex Filters EscapedWords
open SyncPairing (isWhitespace)

/-- How the parser reads words. -/
def queryRule : Rule Char where
  escape := '\\'
  isSpace := isWhitespace
  isSpecial c := ['^', '\x60', ':', '\x7b', '\x7d', '"', '\x27', '[', ']', '(', ')'].contains c
  opens c := ['+', '-', '<', '>', '='].contains c
  isKeyword word := [['A', 'N', 'D'], ['O', 'R'], ['N', 'O', 'T'], ['I', 'N']].contains word

/-- The term for a word. -/
def literal (word : String) : UserInputLiteral :=
  { fieldName := none, phrase := word, delimiter := .none, slop := 0, asPrefix := false }

/-- The word of a leaf that is no more than a term. -/
def word? : Option Occur × UserInputAst → Option String
  | (none, .leaf (.literal l)) => if l = literal l.phrase then some l.phrase else none
  | (some .must, .leaf (.literal l)) => if l = literal l.phrase then some l.phrase else none
  | _ => none

/-- The words of a conjunction of terms; terms without an operator between them are one. -/
def conjunction? : UserInputAst → Option (List String)
  | .clause children => children.mapM word?
  | ast => (word? (none, ast)).map fun word => [word]

/-- The parser of the search engine. -/
structure QueryGrammar where
  parse : String → Option UserInputAst
  /-- Nothing but words is read as their conjunction. -/
  accepts : ∀ q words, queryRule.readWords q.toList = some words →
    ∃ ast, parse q = some ast ∧ conjunction? ast = some (words.map String.ofList)
  /-- A term is read off a word of the text. -/
  words : ∀ q ast words, parse q = some ast → conjunction? ast = some words →
    ∀ word ∈ words, queryRule.StandsIn word.toList q.toList

/-- Each run of a text is a term of the query, and there are no others. -/
def SearchedLiterally (grammar : QueryGrammar) (s : String) : Prop :=
  ∃ ast, grammar.parse (escapeQueryText s) = some ast ∧
    conjunction? ast = some ((runs isWhitespace s.toList).map String.ofList)

/-- The run has no quote that is not escaped, starts no range and is no operator. -/
def Harmless (run : List Char) : Prop :=
  '\x27' ∉ run ∧ '\x60' ∉ run ∧ (∀ c, run.head? = some c → c ≠ '<' ∧ c ≠ '>' ∧ c ≠ '=') ∧
    queryRule.isKeyword run = false

/-- The escapes cover the words that are harmless, and no others. -/
theorem covers_iff (run : List Char) : queryRule.Covers isQuerySyntax run ↔ Harmless run := by
  constructor
  · rintro ⟨hspecial, hopens, hkeyword⟩
    refine ⟨fun hquote => ?_, fun hquote => ?_, fun c hc => ?_, ?_⟩
    · exact absurd (hspecial _ hquote (by decide)) (by decide)
    · exact absurd (hspecial _ hquote (by decide)) (by decide)
    · refine ⟨?_, ?_, ?_⟩ <;> rintro rfl <;> exact absurd (hopens _ hc (by decide)) (by decide)
    · cases hword : queryRule.isKeyword run with
      | false => rfl
      | true =>
          obtain ⟨c, hc, hsyntax⟩ := hkeyword hword
          -- none of the operators has a character that is escaped
          have hnone : [['A', 'N', 'D'], ['O', 'R'], ['N', 'O', 'T'], ['I', 'N']].all
              (fun word => word.all fun c => !isQuerySyntax c) = true := by decide
          have hword := List.all_eq_true.1 hnone run (List.contains_iff_mem.1 hword)
          rw [(Bool.not_eq_true' _).mp (List.all_eq_true.1 hword c hc)] at hsyntax
          cases hsyntax
  · rintro ⟨hquote, hback, hopens, hkeyword⟩
    refine ⟨fun c hc hspecial => ?_, fun c hc hopen => ?_, fun hword => ?_⟩
    · have hmem := List.contains_iff_mem.1 hspecial
      simp only [List.mem_cons, List.not_mem_nil, or_false] at hmem
      rcases hmem with rfl | rfl | rfl | rfl | rfl | rfl | rfl | rfl | rfl | rfl | rfl
      case inr.inl => exact absurd hc hback
      case inr.inr.inr.inr.inr.inr.inl => exact absurd hc hquote
      all_goals decide
    · obtain ⟨hlt, hgt, heq⟩ := hopens c hc
      have hmem := List.contains_iff_mem.1 hopen
      simp only [List.mem_cons, List.not_mem_nil, or_false, hlt, hgt, heq] at hmem
      rcases hmem with rfl | rfl
      all_goals decide
    · rw [hkeyword] at hword
      cases hword

theorem isQuerySyntax_of_isWhitespace (c : Char) (h : isWhitespace c = true) :
    isQuerySyntax c = false := by
  cases hc : isQuerySyntax c with
  | false => rfl
  | true =>
      have hnone : ['\\', '+', '-', '!', '(', ')', '\x7b', '\x7d', '[', ']', '^', '"', '~', '*',
          '?', ':', '/'].all (fun c => !isWhitespace c) = true := by decide
      rw [(Bool.not_eq_true' _).mp (List.all_eq_true.1 hnone c (List.contains_iff_mem.1 hc))] at h
      cases h

/-- **FREE TEXT IS SEARCHED LITERALLY** exactly if all of its runs are harmless. -/
theorem searchedLiterally_iff (grammar : QueryGrammar) (s : String) :
    SearchedLiterally grammar s ↔ ∀ run ∈ runs isWhitespace s.toList, Harmless run := by
  have htext : (escapeQueryText s).toList = queryRule.escapeText isQuerySyntax s.toList :=
    String.toList_ofList
  constructor
  · rintro ⟨ast, hparse, hwords⟩ run hrun
    have hstands := grammar.words _ ast _ hparse hwords _ (List.mem_map_of_mem hrun)
    rw [htext, String.toList_ofList] at hstands
    exact (covers_iff run).1 (covers_of_standsIn rfl hstands)
  · intro h
    refine grammar.accepts _ _ ?_
    rw [htext]
    exact readWords_escapeText rfl isQuerySyntax_of_isWhitespace
      fun run hrun => (covers_iff run).2 (h run hrun)

/-- The conjunction of the terms for some words. -/
def conjunctionOf (words : List String) : UserInputAst :=
  .clause (words.map fun word => (none, .leaf (.literal (literal word))))

theorem conjunction?_conjunctionOf (words : List String) :
    conjunction? (conjunctionOf words) = some words := by
  rw [conjunctionOf, conjunction?, List.mapM_map, Outcomes.mapM_eq_some_iff, List.forall₂_same]
  exact fun word _ => if_pos rfl

/-- A parser that knows of nothing but words. -/
def QueryGrammar.reference : QueryGrammar where
  parse q := (queryRule.readWords q.toList).map fun words => conjunctionOf (words.map String.ofList)
  accepts q words h := by
    refine ⟨_, by rw [h]; rfl, conjunction?_conjunctionOf _⟩
  words q ast words hparse hwords word hword := by
    obtain ⟨read, hread, rfl⟩ := Option.map_eq_some_iff.1 hparse
    rw [conjunction?_conjunctionOf, Option.some.injEq] at hwords
    rw [← hwords] at hword
    obtain ⟨run, hrun, rfl⟩ := List.mem_map.1 hword
    rw [String.toList_ofList]
    exact standsIn_of_readWords hread run hrun

/-- An apostrophe is not escaped. -/
theorem not_searchedLiterally_apostrophe :
    ¬ SearchedLiterally QueryGrammar.reference "it's" := by
  have hnone : QueryGrammar.reference.parse (escapeQueryText "it's") = none := by decide
  rintro ⟨ast, hparse, _⟩
  rw [hnone] at hparse
  cases hparse

end FreeText
