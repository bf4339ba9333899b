import AbilityRotation.Proofs.Settings.Payload
import AbilityRotation.Proofs.Settings.Splitting
import AbilityRotation.Rotation.Export

/-!
Settings lines are read back.

The settings of a text are under targets that can stand in a settings line (`Target`), and are
readable.  What is written for such entries are lines that set them again, each target on its own
line.
* `IsSetting`: how a settings line is laid out; `isSetting_of_ofChars` and `IsSetting.ofChars`.
* `soundTable_settings`: the settings of a text are of that kind.
* `sets_settingsLines`: the lines that are written for entries set what the entries say.
* `get?_foldl_addLine`: what is looked up in the settings of such lines.
-/

namespace AbilityRotation

open Text

/-- Which characters a target is made of. -/
def SettingsScope.inTarget : SettingsScope → Char → Bool
  | .occurrence => isDecimalDigit
  | .ability => fun c => !isBlank c

/-- The mark in front of a settings line. -/
def SettingsScope.mark : SettingsScope → String
  | .occurrence => "#*"
  | .ability => "#@"

/-- Whether a text is a target of settings lines. -/
structure Target (scope : SettingsScope) (target : String) : Prop where
  /-- The characters are those of targets. -/
  inTarget : ∀ c ∈ target.toList, scope.inTarget c = true
  /-- The target can stand in a line. -/
  solid : Solid target.toList

/-- Whether an entry can be given by a settings line. -/
structure Sound (scope : SettingsScope) (target : String) (o : Overrides) : Prop where
  /-- The target is one of settings lines. -/
  target : Target scope target
  /-- The settings are readable. -/
  readable : o.Readable
  /-- There are settings. -/
  nonempty : o.isEmpty = false

variable {scope : SettingsScope} {cs payload : List Char} {target line : String}
  {t : Table Overrides} {o : Overrides}

/-! ### The layout of settings lines -/

/-- No blank is part of a target. -/
lemma isBlank_of_inTarget {c : Char} (h : scope.inTarget c = true) : isBlank c = false := by
  cases scope with
  | ability => simpa [SettingsScope.inTarget] using h
  | occurrence => exact isBlank_of_isDigitSign (isDigitSign_of_isDecimalDigit h)

/-- How a settings line is laid out behind its mark: the target, blanks and the payload. -/
structure LaidOut (scope : SettingsScope) (target : String) (payload after : List Char) : Prop where
  /-- There is a target. -/
  target_ne : target.toList ≠ []
  /-- Its characters are those of targets. -/
  inTarget : ∀ c ∈ target.toList, scope.inTarget c = true
  /-- There is a payload. -/
  payload_ne : payload ≠ []
  /-- The blanks in front are no part of it. -/
  head : payload.head?.any isBlank = false
  /-- Between them are blanks. -/
  layout : ∃ blanks, blanks ≠ [] ∧ (∀ c ∈ blanks, isBlank c = true) ∧
    after = target.toList ++ (blanks ++ payload)

/-- Whether a line, without the blanks around it, is a mark and then laid out as a settings line. -/
def IsSetting (scope : SettingsScope) (target : String) (payload cs : List Char) : Prop :=
  ∃ after, trimChars cs = scope.mark.toList ++ after ∧ LaidOut scope target payload after

/-- What is read of a line that begins with a mark. -/
lemma ofChars_of_mark {after : List Char} (h : trimChars cs = scope.mark.toList ++ after) :
    TextLine.ofChars cs =
      TextLine.settingOf scope scope.inTarget (scope.mark.toList ++ after) after := by
  rw [TextLine.ofChars, h]
  cases scope with
  | occurrence => rfl
  | ability => rfl

/-- A line that begins with no mark is one of the expression. -/
lemma ofChars_of_no_mark (h : ∀ scope : SettingsScope, ¬scope.mark.toList <+: trimChars cs) :
    TextLine.ofChars cs = .expression cs := by
  rw [TextLine.ofChars]
  split
  · next rest heq => exact absurd ⟨rest, heq.symm⟩ (h .occurrence)
  · next rest heq => exact absurd ⟨rest, heq.symm⟩ (h .ability)
  · rfl

/-- What is read as a target and a payload behind a mark is laid out in this way. -/
lemma of_settingOf {s : SettingsScope} {after : List Char}
    (h : TextLine.settingOf scope scope.inTarget cs after = .setting s target payload line) :
    s = scope ∧ LaidOut scope target payload after := by
  rw [TextLine.settingOf] at h
  split at h
  · cases h
  · next hparts =>
      cases h
      simp only [Bool.or_eq_true, not_or, List.isEmpty_iff, decide_eq_true_eq] at hparts
      obtain ⟨⟨htarget, hpayload⟩, hlength⟩ := hparts
      have hall : ∀ c ∈ after.takeWhile scope.inTarget, scope.inTarget c = true :=
        fun c hc => List.mem_takeWhile_imp hc
      refine ⟨rfl, by rwa [String.toList_ofList], by rwa [String.toList_ofList], hpayload,
        head?_dropWhile_isBlank _, (after.dropWhile scope.inTarget).takeWhile isBlank, ?_,
        fun c hc => List.mem_takeWhile_imp hc, ?_⟩
      · intro hnil
        refine hlength (congrArg List.length ?_)
        rw [trimFront, ← List.nil_append (List.dropWhile _ _), ← hnil,
          List.takeWhile_append_dropWhile]
      · rw [String.toList_ofList, trimFront, List.takeWhile_append_dropWhile,
          List.takeWhile_append_dropWhile]

/-- The target and the payload of a line that is laid out in this way are found again. -/
lemma LaidOut.settingOf {after : List Char} (h : LaidOut scope target payload after) :
    TextLine.settingOf scope scope.inTarget cs after =
      .setting scope target payload (String.ofList cs) := by
  obtain ⟨blanks, hne, hblank, rfl⟩ := h.layout
  obtain ⟨b, bs, rfl⟩ := List.exists_cons_of_ne_nil hne
  -- the first blank ends the target, and behind the blanks begins the payload
  have hend : scope.inTarget b = false := by
    by_contra hb
    have hnot := isBlank_of_inTarget (Bool.eq_true_of_not_eq_false hb)
    rw [hblank b List.mem_cons_self] at hnot
    cases hnot
  have htake : (target.toList ++ (b :: bs ++ payload)).takeWhile scope.inTarget =
      target.toList := by
    rw [List.takeWhile_append_of_pos h.inTarget, List.cons_append,
      List.takeWhile_cons_of_neg (by simp [hend]), List.append_nil]
  have hdrop : (target.toList ++ (b :: bs ++ payload)).dropWhile scope.inTarget =
      b :: bs ++ payload := by
    rw [List.dropWhile_append_of_pos h.inTarget, List.cons_append,
      List.dropWhile_cons_of_neg (by simp [hend])]
  have hfront : trimFront (b :: bs ++ payload) = payload := by
    rw [trimFront, List.dropWhile_append_of_pos hblank]
    exact dropWhile_isBlank_eq_self h.head
  have hlength : payload.length ≠ (b :: bs ++ payload).length := by
    rw [List.length_append, List.length_cons]
    omega
  rw [TextLine.settingOf, htake, hdrop, hfront, decide_eq_false hlength,
    List.isEmpty_eq_false_iff.mpr h.target_ne, List.isEmpty_eq_false_iff.mpr h.payload_ne,
    String.ofList_toList]
  rfl

/-- The layout of a settings line is found. -/
lemma isSetting_of_ofChars (h : TextLine.ofChars cs = .setting scope target payload line) :
    IsSetting scope target payload cs := by
  by_cases hmark : ∃ scope : SettingsScope, scope.mark.toList <+: trimChars cs
  · obtain ⟨s, after, hafter⟩ := hmark
    rw [ofChars_of_mark hafter.symm] at h
    obtain ⟨rfl, hlaid⟩ := of_settingOf h
    exact ⟨after, hafter.symm, hlaid⟩
  · rw [ofChars_of_no_mark (not_exists.mp hmark)] at h
    cases h

/-- A line with the layout of a settings line is one. -/
lemma IsSetting.ofChars (h : IsSetting scope target payload cs) :
    TextLine.ofChars cs = .setting scope target payload (String.ofList (trimChars cs)) := by
  obtain ⟨after, hafter, hlaid⟩ := h
  rw [ofChars_of_mark hafter, hafter]
  exact hlaid.settingOf

/-- A settings line of a text has a target, and its payload is plain. -/
lemma of_textLine (h : TextLine.ofChars cs = .setting scope target payload line)
    (hp : ∀ c ∈ cs, isPlain c = true) :
    Target scope target ∧ ∀ c ∈ payload, isPlain c = true := by
  obtain ⟨after, hafter, hlaid⟩ := isSetting_of_ofChars h
  obtain ⟨blanks, -, -, rfl⟩ := hlaid.layout
  have hplain : ∀ c ∈ target.toList ++ (blanks ++ payload), isPlain c = true := by
    intro c hc
    refine hp c (mem_of_mem_trimChars ?_)
    rw [hafter]
    exact List.mem_append_right _ hc
  refine ⟨⟨hlaid.inTarget, hlaid.target_ne, fun c hc => isBlank_of_inTarget (hlaid.inTarget c hc),
    fun c hc => hplain c (List.mem_append_left _ hc)⟩, fun c hc => ?_⟩
  exact hplain c (List.mem_append_right _ (List.mem_append_right _ hc))

/-! ### The settings of a text -/

/-- The settings after those of one more line. -/
def addLine (scope : SettingsScope) (t : Table Overrides) (l : TextLine) : Table Overrides :=
  match l with
  | .setting s target payload line =>
      if s = scope then SplitText.addSettings t target (Settings.read payload line) else t
  | _ => t

lemma settings_eq_foldl (scope : SettingsScope) (ls : List TextLine) :
    SplitText.settings scope ls = ls.foldl (addLine scope) Table.empty :=
  rfl

/-- Whether all entries of settings can be given by settings lines. -/
def SoundTable (scope : SettingsScope) (t : Table Overrides) : Prop :=
  ∀ target o, t.get? target = some o → Sound scope target o

lemma soundTable_addSettings (ht : SoundTable scope t) (htarget : Target scope target)
    {delta : Option Overrides} (hdelta : ∀ o ∈ delta, o.Readable) :
    SoundTable scope (SplitText.addSettings t target delta) := by
  rw [SplitText.addSettings.eq_def]
  split
  · exact ht
  · next o =>
      split
      · exact ht
      · next merged hmerged =>
          obtain ⟨hreadable, hnonempty⟩ := Overrides.SettableBy.merge
            (fun a ha => (ht target a ha).readable) hdelta hmerged
          intro key p hp
          rw [Table.get?_insert] at hp
          split at hp
          · next hkey =>
              cases hp
              exact hkey ▸ ⟨htarget, hreadable, hnonempty⟩
          · exact ht key p hp

/-- The settings of plain lines are sound. -/
lemma soundTable_foldl_addLine {ls : List (List Char)}
    (hp : ∀ l ∈ ls, ∀ c ∈ l, isPlain c = true) (ht : SoundTable scope t) :
    SoundTable scope ((ls.map TextLine.ofChars).foldl (addLine scope) t) := by
  induction ls generalizing t with
  | nil => exact ht
  | cons l ls ih =>
      refine ih (fun m hm => hp m (List.mem_cons_of_mem _ hm)) ?_
      rw [addLine.eq_def]
      split
      · next s target payload line hl =>
          obtain ⟨htarget, hpayload⟩ := of_textLine hl (hp l List.mem_cons_self)
          split
          · next hs =>
              exact soundTable_addSettings ht (hs ▸ htarget) fun o ho =>
                (Settings.settable_read hpayload ho).1
          · exact ht
      · exact ht

/-- **The settings of a text can be written.**  All of them are under targets of settings lines, and
are readable. -/
theorem soundTable_settings (scope : SettingsScope) (cs : List Char) :
    SoundTable scope (SplitText.settings scope (SplitText.linesOf cs)) := by
  rw [settings_eq_foldl, SplitText.linesOf]
  refine soundTable_foldl_addLine (fun l hl c hc => isPlain_of_mem_lines_sanitize hl hc) ?_
  intro target o ho
  cases ho

/-! ### Written lines -/

/-- A settings line in writing. -/
def lineText (scope : SettingsScope) (target payload : String) : String :=
  scope.mark ++ target ++ " " ++ payload

lemma toList_lineText (scope : SettingsScope) (target payload : String) :
    (lineText scope target payload).toList =
      scope.mark.toList ++ (target.toList ++ ' ' :: payload.toList) := by
  simp [lineText]

/-- Written lines do not begin or end with a blank. -/
lemma tight_lineText {payload : String} (hne : payload.toList ≠ [])
    (hpayload : Tight payload.toList) : Tight (lineText scope target payload).toList := by
  obtain ⟨c, cs, hcs⟩ := List.exists_cons_of_ne_nil hne
  rw [toList_lineText]
  constructor
  · cases scope <;> exact (by decide : Text.isBlank '#' = false)
  · have hlast := hpayload.2
    rw [hcs] at hlast ⊢
    rw [← List.append_assoc, List.getLast?_append_cons, List.getLast?_cons_cons]
    exact hlast

/-- A written line is read as a settings line. -/
lemma textLine_lineText {payload : String} (htarget : Target scope target)
    (hne : payload.toList ≠ []) (hpayload : Tight payload.toList) :
    TextLine.ofChars (lineText scope target payload).toList =
      .setting scope target payload.toList (lineText scope target payload) := by
  have htrim : trimChars (lineText scope target payload).toList =
      (lineText scope target payload).toList :=
    trimChars_eq_self (tight_lineText hne hpayload)
  have hset : IsSetting scope target payload.toList (lineText scope target payload).toList :=
    ⟨_, htrim.trans (toList_lineText scope target payload), htarget.solid.ne_nil,
      htarget.inTarget, hne, hpayload.1, [' '], List.cons_ne_nil _ _,
      List.forall_mem_singleton.mpr (by decide), rfl⟩
  rw [hset.ofChars, htrim, String.ofList_toList]

/-- A line is malformed if a character between mark and payload can be in no target. -/
lemma textLine_lineText_of_not_inTarget {payload : String} {c : Char}
    (hblank : ∀ c ∈ target.toList, isBlank c = false) (hc : c ∈ target.toList)
    (hout : scope.inTarget c = false) (hne : payload.toList ≠ [])
    (hpayload : Tight payload.toList) :
    TextLine.ofChars (lineText scope target payload).toList =
      .malformed scope (lineText scope target payload) := by
  have htrim : trimChars (lineText scope target payload).toList =
      (lineText scope target payload).toList :=
    trimChars_eq_self (tight_lineText hne hpayload)
  obtain ⟨d, ds, hcut⟩ : ∃ d ds, target.toList.dropWhile scope.inTarget = d :: ds := by
    refine List.exists_cons_of_ne_nil fun hnil => ?_
    have hin := List.dropWhile_eq_nil_iff.mp hnil c hc
    rw [hout] at hin
    cases hin
  have hd : isBlank d = false :=
    hblank d ((List.dropWhile_sublist _).subset (hcut ▸ List.mem_cons_self))
  have hseparated : (target.toList ++ ' ' :: payload.toList).dropWhile scope.inTarget =
      d :: (ds ++ ' ' :: payload.toList) := by
    rw [List.dropWhile_append, hcut]
    rfl
  -- what is left behind the target begins without the blank that has to separate it
  have hfront : trimFront (d :: (ds ++ ' ' :: payload.toList)) =
      d :: (ds ++ ' ' :: payload.toList) :=
    dropWhile_isBlank_eq_self (by simpa using hd)
  rw [ofChars_of_mark (htrim.trans (toList_lineText scope target payload)), TextLine.settingOf,
    hseparated, hfront, decide_eq_true rfl, Bool.or_true, ← toList_lineText,
    String.ofList_toList]
  rfl

/-- Whether a line sets what an entry says. -/
def Sets (scope : SettingsScope) (e : String × Overrides) (l : TextLine) : Prop :=
  ∃ payload line, l = .setting scope e.1 payload line ∧ Settings.read payload line = some e.2

/-- Whether a text can be a line of its own. -/
def IsLine (l : String) : Prop :=
  l.toList ≠ [] ∧ ∀ c ∈ l.toList, isPlain c = true

lemma isLine_lineText {payload : String} (htarget : ∀ c ∈ target.toList, isPlain c = true)
    (hpayload : ∀ c ∈ payload.toList, isPlain c = true) :
    IsLine (lineText scope target payload) := by
  refine ⟨?_, fun c hc => ?_⟩
  · rw [toList_lineText]
    exact List.append_ne_nil_of_right_ne_nil _
      (List.append_ne_nil_of_right_ne_nil _ (List.cons_ne_nil _ _))
  · rw [toList_lineText, List.mem_append, List.mem_append, List.mem_cons] at hc
    rcases hc with hc | hc | rfl | hc
    · have hmark : ∀ c ∈ scope.mark.toList, isPlain c = true :=
        List.all_iff_forall_prop.mp (by cases scope <;> decide)
      exact hmark c hc
    · exact htarget c hc
    · decide
    · exact hpayload c hc

/-- The line of an entry whose settings are written as a payload. -/
lemma settingsLine_of_write {payload : String} (hne : payload.toList ≠ [])
    (h : Settings.write (some o) = .ok payload) :
    Rotation.settingsLine scope.mark (target, o) = .ok [lineText scope target payload] := by
  rw [Rotation.settingsLine, h, Except.map, isEmpty_eq_false hne]
  rfl

/-- The line that is written for an entry sets what the entry says. -/
lemma exists_settingsLine {e : String × Overrides} {ls : List String} (he : Sound scope e.1 e.2)
    (h : Rotation.settingsLine scope.mark e = .ok ls) :
    ∃ l, ls = [l] ∧ IsLine l ∧ Sets scope e (TextLine.ofChars l.toList) := by
  obtain ⟨payload, hpayload, -⟩ := map_eq_ok_iff.mp h
  obtain ⟨hne, htight, hplain⟩ := Settings.line_write he.readable he.nonempty hpayload
  refine ⟨lineText scope e.1 payload,
    Except.ok.inj (h.symm.trans (settingsLine_of_write hne hpayload)),
    isLine_lineText he.target.solid.allowed hplain, payload.toList,
    lineText scope e.1 payload, textLine_lineText he.target hne htight,
    Settings.read_write he.readable he.nonempty hpayload _⟩

/-- **Settings lines are read back.**  The lines that are written for entries set what the entries
say, in their order. -/
theorem sets_settingsLines {es : List (String × Overrides)} {ls : List String}
    (hes : ∀ e ∈ es, Sound scope e.1 e.2) (h : Rotation.settingsLines scope.mark es = .ok ls) :
    (∀ l ∈ ls, IsLine l) ∧
      List.Forall₂ (Sets scope) es (ls.map fun l => TextLine.ofChars l.toList) := by
  induction es generalizing ls with
  | nil =>
      cases h
      exact ⟨by simp, .nil⟩
  | cons e es ih =>
      rw [Rotation.settingsLines] at h
      obtain ⟨first, hfirst, h⟩ := bind_eq_ok_iff.mp h
      obtain ⟨others, hothers, h⟩ := bind_eq_ok_iff.mp h
      cases h
      obtain ⟨l, rfl, hl, hsets⟩ := exists_settingsLine (hes e List.mem_cons_self) hfirst
      obtain ⟨hlines, hrest⟩ := ih (fun f hf => hes f (List.mem_cons_of_mem _ hf)) hothers
      refine ⟨?_, .cons hsets hrest⟩
      rintro m hm
      rcases List.mem_cons.mp hm with rfl | hm
      · exact hl
      · exact hlines m hm

/-! ### The settings that written lines give -/

variable {es : List (String × Overrides)} {ls : List TextLine}

/-- Settings lines hold no expression. -/
lemma expressionLines_sets (h : List.Forall₂ (Sets scope) es ls) :
    SplitText.expressionLines ls = [] := by
  induction h with
  | nil => rfl
  | cons hs _ ih =>
      obtain ⟨payload, line, rfl, -⟩ := hs
      exact ih

/-- Lines of one scope give no settings of the other. -/
lemma foldl_addLine_other {other : SettingsScope} (h : List.Forall₂ (Sets other) es ls)
    (hother : other ≠ scope) (t : Table Overrides) : ls.foldl (addLine scope) t = t := by
  induction h generalizing t with
  | nil => rfl
  | cons hs _ ih =>
      obtain ⟨payload, line, rfl, -⟩ := hs
      rw [List.foldl_cons, addLine, if_neg hother]
      exact ih t

/-- A line for a new target sets it. -/
lemma addLine_sets {e : String × Overrides} {l : TextLine} (h : Sets scope e l)
    (hne : e.2.isEmpty = false) (ht : t.get? e.1 = none) :
    addLine scope t l = t.insert e.1 e.2 := by
  obtain ⟨payload, line, rfl, hread⟩ := h
  have hmerge : Overrides.merge none (some e.2) = some e.2 := by
    rw [Overrides.merge, Option.getD_some, Option.getD_none, Overrides.laidOver_empty,
      Overrides.nonempty?, hne]
    rfl
  rw [addLine, if_pos rfl, hread, SplitText.addSettings, ht, hmerge]

/-- What is looked up in the settings that written lines give. -/
lemma get?_foldl_addLine (h : List.Forall₂ (Sets scope) es ls)
    (hne : ∀ e ∈ es, e.2.isEmpty = false) (hnodup : (es.map Prod.fst).Nodup)
    (ht : ∀ e ∈ es, t.get? e.1 = none) (name : String) :
    (ls.foldl (addLine scope) t).get? name = (es.lookup name).or (t.get? name) := by
  induction h generalizing t with
  | nil => rfl
  | @cons e l es ls hs _ ih =>
      obtain ⟨hfresh, hnodup⟩ := List.nodup_cons.mp hnodup
      rw [List.foldl_cons, addLine_sets hs (hne e List.mem_cons_self) (ht e List.mem_cons_self),
        ih (fun f hf => hne f (List.mem_cons_of_mem _ hf)) hnodup, List.lookup_cons,
        Table.get?_insert]
      -- keys are distinct, so a later line is for another target
      · by_cases hname : name = e.1
        · have hlookup : es.lookup name = none := by
            rw [List.lookup_eq_none_iff]
            intro f hf
            rw [bne_iff_ne, hname]
            exact fun heq => hfresh (heq ▸ List.mem_map_of_mem hf)
          rw [hlookup, if_pos hname, beq_iff_eq.mpr hname]
          rfl
        · simp [hname, beq_eq_false_iff_ne.mpr hname]
      · intro f hf
        rw [Table.get?_insert, if_neg]
        · exact ht f (List.mem_cons_of_mem _ hf)
        · exact fun heq => hfresh (heq ▸ List.mem_map_of_mem hf)

end AbilityRotation
