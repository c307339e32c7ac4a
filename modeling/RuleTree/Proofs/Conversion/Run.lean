import RuleTree.Proofs.Conversion.Layout
import RuleTree.Proofs.Source.Run

/-!
# Numbers are not split

Lexing alone cuts a run such as `0b12` into two numbers. The grammar then refuses it, because two
literals stand side by side in no sentence. So a run of letters, digits, underscores and points in
the code of an accepted source is one number, and a source with any other run in its code is
rejected.

* `inCode_of_not_mem`: without quotes and slashes all of a source is code.
* `parse_run`: the runs of accepted sources, and the sources that a run makes rejected.
-/

namespace RuleTree

open Phrase Reading Terminal Vocabulary

/-- Texts that only look like numbers. -/
def malformedNumbers : List String := ["1_000", "0xZZ", "0b12", "12abc", "1.2.3", "0x0x1"]

theorem not_matchesWhole_of_malformed {k : LiteralKind} (hk : k.isQuoted = false) :
    ∀ text ∈ malformedNumbers, ¬(literal k).MatchesWhole .standard text.toList := by
  cases k with
  | char => cases hk
  | string => cases hk
  | _ => decide

theorem inCode_of_not_mem {before run behind : List Char}
    (h : ∀ c ∈ before ++ (run ++ behind), c ≠ '\'' ∧ c ≠ '"' ∧ c ≠ '/') :
    InCode before run behind := by
  intro t head text tail henclosing hpiece hsplit
  exfalso
  obtain ⟨c, hopener, hhead⟩ := hpiece.2.stands.exists_opener hpiece.2.mem_terminals
  have hmem : c ∈ before ++ (run ++ behind) :=
    hsplit ▸ List.mem_append_right _ (List.mem_of_mem_head? hhead)
  have hc : c = '\'' ∨ c = '"' ∨ c = '/' := by
    cases t with
    | literal k => cases k <;> simp_all [openers, isEnclosing, LiteralKind.isQuoted]
    | comment => simp_all [openers]
    | _ => cases henclosing
  obtain ⟨hquote, hdouble, hslash⟩ := h c hmem
  exact hc.elim hquote (Or.elim · hdouble hslash)

/-- **Malformed numbers are not split.** In an accepted source every run of letters, digits,
underscores and points that stands in code is one number. So a source with a run that no number
terminal matches from end to end is rejected, whatever stands around the run. -/
theorem parse_run {settings : Settings} (hsettings : settings.Packaged)
    (files : String → Option Vocabulary) (start : Start) {source : String}
    {before run behind : List Char} (hsource : source.toList = before ++ (run ++ behind))
    (hrun : IsRun before run behind) (hcode : InCode before run behind) :
    (∀ t, parse settings files start.name source = .ok t →
      ∃ ts k, Lexes .standard .origin source.toList ts ∧ k.isQuoted = false ∧
        ⟨.literal k (String.ofList run), Mark.origin.after before,
          Mark.origin.after (before ++ run)⟩ ∈ ts) ∧
    ((∀ k : LiteralKind, k.isQuoted = false → ¬(literal k).MatchesWhole .standard run) →
      ∃ e, parse settings files start.name source = .error (.parse e)) ∧
    (String.ofList run ∈ malformedNumbers →
      ∃ e, parse settings files start.name source = .error (.parse e)) := by
  have haccepted (t : Tree) (ht : parse settings files start.name source = .ok t) :
      ∃ ts k, Lexes .standard .origin source.toList ts ∧ k.isQuoted = false ∧ k.Spells run ∧
        ⟨.literal k (String.ofList run), Mark.origin.after before,
          Mark.origin.after (before ++ run)⟩ ∈ ts := by
    obtain ⟨s, -, -, hlexes⟩ := (parse_eq_ok_iff_sentence hsettings).mp ht
    obtain ⟨k, hk, hspells, hmem⟩ := hrun.exists_token hcode (hsource ▸ hlexes) s.loose
    exact ⟨s.tokens, k, hlexes, hk, hspells, hmem⟩
  have hrejected (hnot : ∀ k : LiteralKind, k.isQuoted = false →
      ¬(literal k).MatchesWhole .standard run) :
      ∃ e, parse settings files start.name source = .error (.parse e) := by
    cases hparse : parseSentence settings.parser .standard start source with
    | ok s =>
      have hok : parse settings files start.name source = .ok s.tree := by
        rw [parse_packaged hsettings, parseTree, hparse]
        rfl
      obtain ⟨ts, k, -, hk, hspells, -⟩ := haccepted _ hok
      exact absurd (matchesWhole_literal_iff.mpr hspells) (hnot k hk)
    | error e =>
      refine ⟨e, ?_⟩
      rw [parse_packaged hsettings, parseTree, hparse]
      rfl
  refine ⟨fun t ht => ?_, hrejected, fun hmalformed => hrejected fun k hk => ?_⟩
  · obtain ⟨ts, k, hlexes, hk, -, hmem⟩ := haccepted t ht
    exact ⟨ts, k, hlexes, hk, hmem⟩
  · have hnot := not_matchesWhole_of_malformed hk _ hmalformed
    rwa [String.toList_ofList] at hnot

theorem ne_of_isNumberlike {c : Char} (h : isNumberlike c = true) :
    c ≠ '\'' ∧ c ≠ '"' ∧ c ≠ '/' := by
  refine ⟨?_, ?_, ?_⟩
  · rintro rfl
    exact absurd h (by decide)
  · rintro rfl
    exact absurd h (by decide)
  · rintro rfl
    exact absurd h (by decide)

/-- A float with a prefix is one token between brackets, and none of the malformed numbers can stand
in its place. -/
theorem parse_run_brackets :
    (∃ t, parse {} (fun _ => none) Start.expr.name "[0x1F.5]" = .ok t) ∧
    (∃ ts k, Lexes .standard .origin "[0x1F.5]".toList ts ∧ k.isQuoted = false ∧
      ⟨.literal k "0x1F.5", Mark.origin.after ['['], Mark.origin.after "[0x1F.5".toList⟩ ∈ ts) ∧
    ∀ text ∈ malformedNumbers,
      ∃ e, parse {} (fun _ => none) Start.expr.name ("[" ++ text ++ "]") = .error (.parse e) := by
  have hsettings : ({} : Settings).Packaged := Or.inl rfl
  have hsource (text : String) : ("[" ++ text ++ "]").toList = ['['] ++ (text.toList ++ [']']) := by
    simp
  have hrun (text : String) (htext : text ∈ "0x1F.5" :: malformedNumbers) :
      IsRun ['['] text.toList [']'] ∧ InCode ['['] text.toList [']'] := by
    have hplain : ∀ text ∈ "0x1F.5" :: malformedNumbers, text.toList ≠ [] ∧
        text.toList.all isNumberlike = true := by decide
    obtain ⟨hne, hall⟩ := hplain text htext
    have hall := List.all_eq_true.mp hall
    refine ⟨⟨hne, hall, by rintro _ ⟨⟩; decide, by rintro _ ⟨⟩; decide⟩, inCode_of_not_mem ?_⟩
    simp only [List.forall_mem_append, List.forall_mem_singleton]
    exact ⟨by decide, fun c hc => ne_of_isNumberlike (hall c hc), by decide⟩
  have hok : ∃ t, parse {} (fun _ => none) Start.expr.name "[0x1F.5]" = .ok t := by
    have hsome : (parse {} (fun _ => none) Start.expr.name "[0x1F.5]").toOption.isSome = true := by
      decide +kernel
    cases hparse : parse {} (fun _ => none) Start.expr.name "[0x1F.5]" with
    | error e =>
      rw [hparse] at hsome
      cases hsome
    | ok t => exact ⟨t, rfl⟩
  obtain ⟨t, ht⟩ := hok
  obtain ⟨hfloat, hcode⟩ := hrun "0x1F.5" List.mem_cons_self
  refine ⟨⟨t, ht⟩, ?_, fun text htext => ?_⟩
  · have h := (parse_run hsettings (fun _ => none) .expr (hsource "0x1F.5") hfloat hcode).1 t ht
    simpa using h
  · obtain ⟨htext', hcode'⟩ := hrun text (List.mem_cons_of_mem _ htext)
    have h := (parse_run hsettings (fun _ => none) .expr (hsource text) htext' hcode').2.2
    exact h (by simpa using htext)

end RuleTree
