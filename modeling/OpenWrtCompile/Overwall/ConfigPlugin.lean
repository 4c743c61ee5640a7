import OpenWrtCompile.Overwall.ConfigMembers
import OpenWrtCompile.Overwall.ListPrecedence

/-!
# The plugin in the configuration files

What `sed` makes of a file with the right values: the two lines are added behind each line in which the
pattern is found. The file is right if there is one such line and the values are put in as they are.
-/

namespace OpenWrtCompile.Overwall.ConfigFiles
open OpenWrtCompile.Base OpenWrtCompile.Base.ShellWords OpenWrtCompile.Base.Replacement

/-! ## The script -/

/-- The replacement of the script. -/
def replacement (found plugin opts : Bytes) : Bytes :=
  found ++ ascii "\\n\"plugin\":\"" ++ plugin ++ ascii "\",\\n\"plugin_opts\":\"" ++ opts ++ ascii "\","

/-- A simple pattern holds no byte that is special in a script. -/
theorem not_mem_of_isSimple {found : Bytes} (h : Shell.isSimple found = true) {c : UInt8}
    (hc : Shell.isSimple [c] = false) : c ∉ found := by
  intro hmem
  have hall := List.all_eq_true.mp h c hmem
  unfold Shell.isSimple at hc
  rw [List.all_cons, List.all_nil, Bool.and_true] at hc
  rw [hc] at hall
  cases hall

/-- The parts of the script. -/
theorem command_insertScript {found plugin opts : Bytes} (hfound : Shell.isSimple found = true)
    (hp : 0x40 ∉ plugin ++ opts) :
    command (insertScript found plugin opts) = some (found, replacement found plugin opts, []) := by
  rw [List.mem_append, not_or] at hp
  have hat := not_mem_of_isSimple hfound (c := 0x40) (by decide)
  have hback := not_mem_of_isSimple hfound (c := 0x5C) (by decide)
  have hform : insertScript found plugin opts =
      0x73 :: 0x40 :: (found ++ 0x40 :: (replacement found plugin opts ++ 0x40 :: [])) := by
    simp [insertScript, replacement, ascii]
  have hy : 0x40 ∉ replacement found plugin opts := by
    unfold replacement
    simp only [List.mem_append, not_or]
    exact ⟨⟨⟨⟨⟨hat, by decide⟩, hp.1⟩, by decide⟩, hp.2⟩, by decide⟩
  have hylast : (replacement found plugin opts).getLast? ≠ some 0x5C := by
    unfold replacement
    rw [List.getLast?_append_of_ne_nil _ (by decide)]
    decide
  rw [hform]
  exact command_append (by decide) hat hy (fun h ↦ hback (List.mem_of_getLast? h)) hylast []

/-- What is written for a part that is matched. -/
theorem render_replacement {found : Bytes} (hfound : Shell.isSimple found = true)
    (m plugin opts : Bytes) :
    render m (replacement found plugin opts) =
      found ++ 0x0A :: (strLine "plugin" (render m plugin) ++
        0x0A :: strLine "plugin_opts" (render m opts)) := by
  have hamp := not_mem_of_isSimple hfound (c := 0x26) (by decide)
  have hback := not_mem_of_isSimple hfound (c := 0x5C) (by decide)
  have hform : replacement found plugin opts = found ++ (0x5C :: 0x6E :: (ascii "\"plugin\":\"" ++
      (plugin ++ 0x22 :: (ascii "," ++ 0x5C :: 0x6E :: (ascii "\"plugin_opts\":\"" ++
        (opts ++ 0x22 :: ascii ",")))))) := by
    simp [replacement, ascii]
  have hline : piece m 0x6E = [0x0A] := rfl
  have hplugin := render_append (l := ascii "\"plugin\":\"") (by decide) (by decide) m
  have hcomma := render_append (l := ascii ",") (by decide) (by decide) m
  have hopts := render_append (l := ascii "\"plugin_opts\":\"") (by decide) (by decide) m
  have hend := render_eq_self (l := ascii ",") (by decide) (by decide) m
  rw [hform, render_append hamp hback, render_escape, hline, hplugin,
    render_append_cons (by decide) (by decide) rfl, hcomma, render_escape, hline, hopts,
    render_append_cons (by decide) (by decide) rfl, hend]
  simp [strLine, member, quoted, ascii]

/-- A line as it is after the script. -/
def editLine (found plugin opts : Bytes) : Bytes → Bytes :=
  replaceFirst (wordPattern found) fun m ↦ render m (replacement found plugin opts)

/-- The script changes each line, or is an error. -/
theorem sedInPlace_insertScript {found plugin opts : Bytes} (sh : Shell)
    (hfound : Shell.isSimple found = true) (hp : 0x40 ∉ plugin ++ opts) {ls : List Bytes}
    (hls : ∀ l ∈ ls, 0x0A ∉ l) :
    sh.sedInPlace (insertScript found plugin opts) (hereDoc ls) =
      if hasLineEnd (replacement found plugin opts) then hereDoc ls
      else hereDoc (ls.map (editLine found plugin opts)) := by
  have hmap : hereDoc (ls.map (editLine found plugin opts)) =
      ls.flatMap fun l ↦ editLine found plugin opts l ++ [0x0A] := by
    unfold hereDoc
    rw [List.flatMap_map]
  unfold Shell.sedInPlace
  rw [command_insertScript hfound hp, hmap]
  show (if Shell.isSimple found then _ else _) = _
  rw [if_pos hfound]
  exact congrArg (ite _ _) (mapLines_flatMap _ hls)

/-! ## Where the pattern is found -/

/-- A pattern without a dot fits itself alone. -/
theorem fits_plain {w n : Bytes} (hw : 0x2E ∉ w) : Fits (wordPattern w) n ↔ n = w := by
  induction w generalizing n with
  | nil =>
    constructor
    · intro h
      cases h
      rfl
    · rintro rfl
      exact .nil
  | cons c w ih =>
    rw [List.mem_cons, not_or] at hw
    have hform : wordPattern (c :: w) = [.one c] ++ wordPattern w := by
      unfold wordPattern
      rw [List.map_cons, if_neg (Ne.symm hw.1), List.singleton_append]
    rw [hform, fits_append]
    constructor
    · rintro ⟨m, n, rfl, hm, hn⟩
      rw [fits_one.mp hm, (ih hw.2).mp hn, List.singleton_append]
    · rintro rfl
      exact ⟨[c], w, rfl, fits_one.mpr rfl, (ih hw.2).mpr rfl⟩

/-- A part that fits a pattern ends as the pattern does. -/
theorem exists_of_fits {h w m : Bytes} (hw : 0x2E ∉ w) (hm : Fits (wordPattern (h ++ w)) m) :
    ∃ k, m = k ++ w ∧ k.length = h.length := by
  unfold wordPattern at hm
  rw [List.map_append] at hm
  obtain ⟨k, n, rfl, hk, hn⟩ := fits_append.mp hm
  have hlen := List.Forall₂.length_eq hk
  rw [List.length_map] at hlen
  exact ⟨k, congrArg (k ++ ·) ((fits_plain hw).mp hn), hlen.symm⟩

/-- A pattern is not found where its end does not stand. -/
theorem finds_eq_false {h w l : Bytes} (hw : 0x2E ∉ w) (hl : ¬ w <:+: l) :
    finds (wordPattern (h ++ w)) l = false := by
  rw [Bool.eq_false_iff]
  intro hf
  obtain ⟨x, m, y, rfl, hm⟩ := finds_iff.mp hf
  obtain ⟨k, rfl, -⟩ := exists_of_fits hw hm
  exact hl ⟨x ++ k, y, by simp⟩

/-- A pattern is not found where a byte of its end does not stand. -/
theorem finds_eq_false_of_not_mem {h w l : Bytes} {c : UInt8} (hw : 0x2E ∉ w) (hc : c ∈ w)
    (hl : c ∉ l) : finds (wordPattern (h ++ w)) l = false :=
  finds_eq_false hw fun hpart ↦ hl (hpart.subset hc)

/-- A line in which the pattern is not found stays. -/
theorem editLine_of_finds {found l : Bytes} (hfound : found ≠ []) (plugin opts : Bytes)
    (hf : finds (wordPattern found) l = false) : editLine found plugin opts l = l := by
  have hne : wordPattern found ≠ [] := by simpa [wordPattern] using hfound
  obtain ⟨-, heq⟩ | ⟨x, m, y, rfl, hm, -⟩ :=
    replaceFirst_cases hne (fun m ↦ render m (replacement found plugin opts)) l
  · exact heq
  · rw [finds_iff.mpr ⟨x, m, y, rfl, hm⟩] at hf
    cases hf

/-! ## Lines that are changed -/

/-- The line of the address with the two lines behind it. -/
def pluginLines (found plugin opts line : Bytes) : Bytes :=
  line ++ 0x0A :: (strLine "plugin" (render found plugin) ++
    0x0A :: strLine "plugin_opts" (render found opts))

/-- In a line that ends as the pattern does and holds a byte of it once, nothing else fits. -/
theorem editLine_once {found front h t : Bytes} {c : UInt8} (hform : found = h ++ c :: t)
    (hdot : 0x2E ∉ c :: t) (hfront : c ∉ front ++ h) (ht : c ∉ t)
    (hsimple : Shell.isSimple found = true) (plugin opts : Bytes) :
    editLine found plugin opts (front ++ found) = pluginLines found plugin opts (front ++ found) := by
  have hne : wordPattern found ≠ [] := by simp [wordPattern, hform]
  obtain ⟨hno, -⟩ | ⟨x, m, y, hline, hm, hedit⟩ := replaceFirst_cases hne
    (fun m ↦ render m (replacement found plugin opts)) (front ++ found)
  · have hself := finds_iff.mpr
      ⟨front, found, [], (List.append_nil _).symm, fits_wordPattern_self found⟩
    rw [hself] at hno
    cases hno
  · rw [hform] at hm
    obtain ⟨k, rfl, hlen⟩ := exists_of_fits hdot hm
    have hboth : (front ++ h) ++ c :: t = (x ++ k) ++ c :: (t ++ y) := by
      rw [hform] at hline
      simpa using hline
    obtain ⟨hbefore, hbehind⟩ := append_cons_once hfront ht hboth
    obtain rfl := List.self_eq_append_right.mp hbehind
    obtain ⟨rfl, rfl⟩ := List.append_inj' hbefore hlen.symm
    rw [← hform] at hedit
    unfold editLine
    rw [hedit, render_replacement hsimple]
    simp [pluginLines]

/-- A line that is changed has too many tokens. -/
theorem reads_editLine {found : Bytes} (hfound : Shell.isSimple found = true) (hquote : 0x22 ∈ found)
    (key : String) (hkey : (ascii key).all isBare = true) {b : Bytes} (hb : b.all isBare = true)
    (plugin opts : Bytes) :
    Base.Reads (editLine found plugin opts (strLine key b)) (lineTokens (key, .str b))
      (finds (wordPattern found) (strLine key b) = false) := by
  have hne : wordPattern found ≠ [] := by
    simpa [wordPattern] using List.ne_nil_of_mem hquote
  obtain ⟨hno, heq⟩ | ⟨x, m, y, hline, hm, heq⟩ :=
    replaceFirst_cases hne (fun m ↦ render m (replacement found plugin opts)) (strLine key b)
  · unfold editLine
    rw [heq]
    exact (reads_strLine_bare key hkey hb).congr (iff_of_true trivial hno)
  · have hfinds := finds_iff.mpr ⟨x, m, y, hline, hm⟩
    have hreads : Base.Reads (x ++ render m (replacement found plugin opts) ++ y)
        (lineTokens (key, .str b)) False := by
      refine .of_lt fun ts hts ↦ ?_
      have hform : x ++ render m (replacement found plugin opts) ++ y =
          (x ++ found) ++ 0x0A :: (strLine "plugin" (render m plugin) ++
            0x0A :: (strLine "plugin_opts" (render m opts) ++ y)) := by
        rw [render_replacement hfound]
        simp
      rw [hform, lexJson_newline, lexJson_newline] at hts
      obtain ⟨u, vw, hu, hvw, rfl⟩ := joinTokens_eq_some.mp hts
      obtain ⟨v, w, hv, hw, rfl⟩ := joinTokens_eq_some.mp hvw
      have hu' := length_lexJson_pos (List.mem_append_right x hquote) rfl hu
      have hv' := (reads_strLine "plugin" (by decide) (render m plugin) []).bounds v hv
      have hw' := length_lexJson_pos (List.mem_append_left y List.mem_cons_self) rfl hw
      have hfour : ∀ key (v : Bytes), (lineTokens (key, .str v)).length = 4 := fun _ _ ↦ by
        simp [lineTokens, Json.tokens]
      rw [hfour] at hv' ⊢
      simp only [List.length_append]
      omega
    unfold editLine
    rw [heq]
    exact hreads.congr (by rw [hfinds]; decide)

/-- A line that is three lines. -/
theorem hereDoc_pluginLines (found plugin opts first line : Bytes) (ls : List Bytes) :
    hereDoc (first :: pluginLines found plugin opts line :: ls) =
      hereDoc (first :: line :: strLine "plugin" (render found plugin) ::
        strLine "plugin_opts" (render found opts) :: ls) := by
  simp [hereDoc, pluginLines]

/-! ## Values that are put in -/

/-- A text that needs no escape has no end of a line. -/
theorem newline_not_mem {b : Bytes} (hb : b.all isBare = true) : 0x0A ∉ b :=
  fun hmem ↦ absurd (List.all_eq_true.mp hb _ hmem) (by decide)

/-- The text in the pattern has a quotation mark that is not behind a backslash. -/
def HasQuote (found : Bytes) : Prop := ∃ h d t, found = h ++ d :: 0x22 :: t ∧ d ≠ 0x5C

/-- A value that the replacement writes is read as it is if it has no `&` besides. -/
theorem lexJson_render {sh : Shell} {v : Bytes} (h : Safe sh v) (hamp : 0x26 ∉ v) (found : Bytes) :
    lexJson (quoted (render found (Options.get sh v))) = some [.str v] := by
  have hback : 0x5C ∉ v := fun hmem ↦ absurd (List.all_eq_true.mp h.bare _ hmem) (by decide)
  rw [h.get_eq, render_eq_self hamp hback]
  exact lexJson_quoted_of_bare h.bare

/-- A value of which the words match no other names is read as it is only then. -/
theorem safe_of_lexJson_render {sh : Shell} {v found : Bytes} (hv : Leaves sh.names v)
    (hfound : HasQuote found)
    (h : lexJson (quoted (render found (Options.get sh v))) = some [.str v]) :
    Safe sh v ∧ 0x26 ∉ v := by
  have hle := length_get hv
  obtain ⟨x, y, hxy⟩ | hlt | ⟨heq, hamp, -⟩ := render_cases found (Options.get sh v)
  · obtain ⟨a, d, t, rfl, hd⟩ := hfound
    have hscan := (unescape_of_lexJson_quoted h).1
    -- the quotation mark would end the string
    have hform : render (a ++ d :: 0x22 :: t) (Options.get sh v) ++ [0x22] =
        (x ++ a) ++ d :: 0x22 :: (t ++ y ++ [0x22]) := by
      rw [hxy]
      simp
    have hlen := congrArg List.length hxy
    rw [hform] at hscan
    have hshort := length_scanString hd hscan
    simp only [List.length_append, List.length_cons] at hlen hshort
    omega
  · have heq := (eq_of_lexJson_quoted h (by omega)).1
    rw [heq] at hlt
    omega
  · rw [heq] at h
    have hsafe := safe_of_lexJson_quoted hv h
    rw [hsafe.get_eq] at hamp
    exact ⟨hsafe, hamp⟩

/-! ## The plugin -/

/-- A file with the right values in which the script adds the plugin: the lines that it may change are
`others`. -/
structure Edits (sh : Shell) (o : Options) (found : Bytes) (ls others : List Bytes)
    (value edited : Json) : Prop where
  simple : Shell.isSimple found = true
  quote : HasQuote found
  lines : ∀ l ∈ ls, 0x0A ∉ l
  denotes : Base.Denotes (hereDoc ls) value
  ne : value.tokens ≠ edited.tokens
  iff : ∀ plugin opts, Base.Denotes (hereDoc (ls.map (editLine found plugin opts))) edited ↔
    lexJson (quoted (render found plugin)) = some [.str o.plugin] ∧
      lexJson (quoted (render found opts)) = some [.str o.pluginOpts] ∧
      ∀ l ∈ others, finds (wordPattern found) l = false

namespace Edits

variable {sh : Shell} {o : Options} {found : Bytes} {ls others : List Bytes} {value edited : Json}

/-- Values that meet the condition leave the script in one piece. -/
theorem hasLineEnd_eq_false (h : Edits sh o found ls others value edited)
    (hplugin : Safe sh o.plugin) (hopts : Safe sh o.pluginOpts) :
    hasLineEnd (replacement found (Options.get sh o.plugin) (Options.get sh o.pluginOpts)) =
      false := by
  have hfound := not_mem_of_isSimple h.simple (c := 0x0A) (by decide)
  rw [hplugin.get_eq, hopts.get_eq]
  refine Replacement.hasLineEnd_eq_false ?_
  unfold replacement
  simp only [List.mem_append, not_or]
  exact ⟨⟨⟨⟨⟨hfound, by decide⟩, newline_not_mem hplugin.bare⟩, by decide⟩,
    newline_not_mem hopts.bare⟩, by decide⟩

/-- The plugin is added where its values meet the condition. -/
theorem denotes_of_safe (h : Edits sh o found ls others value edited)
    (hsafe : o.PluginSafe sh found others) :
    Base.Denotes (sh.sedInPlace (insertScript found (Options.get sh o.plugin)
      (Options.get sh o.pluginOpts)) (hereDoc ls)) edited := by
  have hat : 0x40 ∉ Options.get sh o.plugin ++ Options.get sh o.pluginOpts := by
    rw [hsafe.plugin.get_eq, hsafe.opts.get_eq]
    exact fun hmem ↦ (hsafe.clear _ hmem).2 rfl
  have hamp : 0x26 ∉ o.plugin ++ o.pluginOpts := fun hmem ↦ (hsafe.clear _ hmem).1 rfl
  rw [List.mem_append, not_or] at hamp
  rw [sedInPlace_insertScript sh h.simple hat h.lines,
    if_neg (by rw [h.hasLineEnd_eq_false hsafe.plugin hsafe.opts]; decide), h.iff]
  exact ⟨lexJson_render hsafe.plugin hamp.1 found, lexJson_render hsafe.opts hamp.2 found, hsafe.once⟩

/-- The plugin is added only there, if the words of the values match no other names. -/
theorem safe_of_denotes (h : Edits sh o found ls others value edited)
    (hordinary : o.PluginOrdinary sh)
    (hdenotes : Base.Denotes (sh.sedInPlace (insertScript found (Options.get sh o.plugin)
      (Options.get sh o.pluginOpts)) (hereDoc ls)) edited) : o.PluginSafe sh found others := by
  rw [sedInPlace_insertScript sh h.simple hordinary.delimiter h.lines] at hdenotes
  split at hdenotes
  · -- the file has no plugin
    exact absurd (Option.some.inj (h.denotes.symm.trans hdenotes)) h.ne
  · obtain ⟨hplugin, hopts, honce⟩ := (h.iff _ _).mp hdenotes
    have hleaves := hordinary.leaves
    rw [List.forall_mem_cons, List.forall_mem_singleton] at hleaves
    obtain ⟨hplugin, hpamp⟩ := safe_of_lexJson_render hleaves.1 h.quote hplugin
    obtain ⟨hopts, hoamp⟩ := safe_of_lexJson_render hleaves.2 h.quote hopts
    have hat := hordinary.delimiter
    rw [hplugin.get_eq, hopts.get_eq] at hat
    refine ⟨hplugin, hopts, fun c hc ↦ ⟨?_, ?_⟩, honce⟩
    · rintro rfl
      exact (List.mem_append.mp hc).elim hpamp hoamp
    · rintro rfl
      exact hat hc

/-- What is left denotes the values where the condition is met. -/
theorem withPlugin_of_safe (h : Edits sh o found ls others value edited)
    (hsafe : o.PluginFound sh → o.PluginSafe sh found others) :
    (o.withPlugin sh found (hereDoc ls)).Denotes value edited := by
  refine ⟨h.denotes, fun file hfile ↦ ?_⟩
  unfold Options.withPlugin at hfile
  split at hfile
  · rename_i hwhich
    rw [← Option.some.inj hfile]
    exact h.denotes_of_safe (hsafe hwhich)
  · cases hfile

/-- What is left denotes the values only there. -/
theorem safe_of_withPlugin (h : Edits sh o found ls others value edited)
    (hordinary : o.PluginOrdinary sh)
    (hdenotes : (o.withPlugin sh found (hereDoc ls)).Denotes value edited)
    (hwhich : o.PluginFound sh) : o.PluginSafe sh found others := by
  refine h.safe_of_denotes hordinary (hdenotes.2 _ ?_)
  unfold Options.withPlugin
  exact if_pos hwhich

end Edits

/-! ## Lines of the files -/

/-- The line of a string has no end of a line in it. -/
theorem newline_not_mem_strLine {key : String} (hkey : (ascii key).all isBare = true) {b : Bytes}
    (hb : b.all isBare = true) : 0x0A ∉ strLine key b := by
  have hcomma : (0x0A : UInt8) ∉ ascii "," := by decide
  simp [strLine, member, quoted, newline_not_mem hkey, newline_not_mem hb, hcomma]

/-- The line of a number has no end of a line in it. -/
theorem newline_not_mem_rawLine {key : String} (hkey : (ascii key).all isBare = true) {b : Bytes}
    (hb : b.all isBare = true) : 0x0A ∉ rawLine key b := by
  have hcomma : (0x0A : UInt8) ∉ ascii "," := by decide
  simp [rawLine, member, quoted, newline_not_mem hkey, newline_not_mem hb, hcomma]

/-- A byte that is in no number. -/
theorem not_mem_number (n : JsonNumber) {c : UInt8} (hc : isNumberByte c = false) : c ∉ n.text := by
  intro hmem
  have hall := List.all_eq_true.mp (Bool.and_eq_true_iff.mp n.valid).1 c hmem
  rw [hc] at hall
  cases hall

/-- A pattern that ends with a quotation mark and a comma is not found in the line of a number. -/
theorem finds_rawLine {key : String} (hkey : 0x2C ∉ ascii key) {b : Bytes} (hcomma : 0x2C ∉ b)
    (hquote : 0x22 ∉ b) (h : Bytes) :
    finds (wordPattern (h ++ ascii "\",")) (rawLine key b) = false := by
  refine finds_eq_false (by decide) ?_
  rintro ⟨x, y, hxy⟩
  have hform : (quoted (ascii key) ++ 0x3A :: b) ++ 0x2C :: [] = (x ++ [0x22]) ++ 0x2C :: y := by
    simpa [rawLine, member, ascii] using hxy.symm
  have hfront : 0x2C ∉ quoted (ascii key) ++ 0x3A :: b := by
    simp [quoted, hkey, hcomma]
  obtain ⟨heq, -⟩ := append_cons_once hfront List.not_mem_nil hform
  obtain rfl | ⟨b, d, rfl⟩ := b.eq_nil_or_concat
  · exact absurd (List.append_inj' heq rfl).2 (by decide)
  · have hlast : (quoted (ascii key) ++ 0x3A :: b) ++ [d] = x ++ [0x22] := by
      simpa using heq
    obtain ⟨-, hd⟩ := List.append_inj' hlast rfl
    rw [(List.cons.inj hd).1] at hquote
    exact hquote (by simp)

/-- `0.0.0.0"],` is not found in the line of a string. -/
theorem finds_strLine_server {key : String} (hkey : 0x22 ∉ ascii key) {b : Bytes} (hb : 0x22 ∉ b) :
    finds (wordPattern (ascii "0.0.0.0\"],")) (strLine key b) = false := by
  refine finds_eq_false (h := ascii "0.0.0.") (w := ascii "0\"],") (by decide) ?_
  rintro ⟨x, y, hxy⟩
  have hform : (x ++ [0x30]) ++ 0x22 :: 0x5D :: (0x2C :: y) =
      [] ++ 0x22 :: (ascii key ++ 0x22 :: ([0x3A] ++ 0x22 :: (b ++ 0x22 :: [0x2C]))) := by
    simpa [strLine, member, quoted, ascii] using hxy
  -- the quotation mark is none of the four in the line
  obtain ⟨hnil, -⟩ | ⟨x₁, hx₁, h₁⟩ := append_cons_cases List.not_mem_nil hform
  · simp at hnil
  obtain ⟨-, hbad⟩ | ⟨x₂, hx₂, h₂⟩ := append_cons_cases hkey h₁
  · exact absurd (List.cons.inj hbad).1 (by decide)
  obtain ⟨hcolon, -⟩ | ⟨x₃, -, h₃⟩ := append_cons_cases (by decide) h₂
  · have hlast : x ++ [0x30] = (0x22 :: (ascii key ++ [0x22])) ++ [0x3A] := by
      rw [hx₁, hx₂, hcolon]
      simp
    exact absurd (List.append_inj' hlast rfl).2 (by decide)
  obtain ⟨-, hbad⟩ | ⟨x₄, -, h₄⟩ := append_cons_cases hb h₃
  · exact absurd (List.cons.inj hbad).1 (by decide)
  have hmem : (0x22 : UInt8) ∈ [0x2C] := h₄ ▸ List.mem_append_right _ List.mem_cons_self
  exact absurd hmem (by decide)

/-- The tokens with the plugin are more. -/
theorem tokens_plugin_ne (o : Options) (m m' : String × Json) (members : List (String × Json)) :
    (object (m :: m' :: members)).tokens ≠
      (object (m :: (o.pluginMembers ++ m' :: members))).tokens := by
  intro h
  have hlen := congrArg List.length h
  simp [object, Options.pluginMembers, Json.tokens, memberTokens, commaUnless] at hlen

/-- The text of an address is simple. -/
theorem Address.isSimple (a : Address) : Shell.isSimple (a.text ++ ascii "\",") = true := by
  have haddr : Shell.isSimple a.text = true := by
    have h : ∀ k, k < 256 → isAddressByte (UInt8.ofNat k) = true →
        Shell.isSimple [UInt8.ofNat k] = true := by decide +kernel
    unfold Shell.isSimple
    rw [List.all_eq_true]
    intro c hc
    have hbyte := forall_byte_lt
      (P := fun c ↦ isAddressByte c = true → Shell.isSimple [c] = true) h c c.toNat_lt
      (List.all_eq_true.mp a.bytes c hc)
    simpa [Shell.isSimple] using hbyte
  have hend : Shell.isSimple (ascii "\",") = true := by decide
  unfold Shell.isSimple at *
  rw [List.all_append, haddr, hend]
  rfl

/-- A byte that is in no address. -/
theorem Address.not_mem (a : Address) {c : UInt8} (hc : isAddressByte c = false) : c ∉ a.text := by
  intro hmem
  rw [List.all_eq_true.mp a.bytes c hmem] at hc
  cases hc

/-- The address of the line has a quotation mark behind it. -/
theorem Address.hasQuote (a : Address) : HasQuote (a.text ++ ascii "\",") := by
  obtain hnil | ⟨b, d, hform⟩ := a.text.eq_nil_or_concat
  · exact absurd hnil a.ne_nil
  · refine ⟨b, d, ascii ",", by rw [hform]; simp [ascii], ?_⟩
    rintro rfl
    exact a.not_mem (c := 0x5C) (by decide) (by rw [hform]; simp)

/-! ## The files for `ss` -/

namespace Call

variable {sh : Shell} {c : Call}

/-- The lines with values that meet the condition. -/
theorem ssLines_eq (h : ∀ v ∈ [c.options.password, c.options.encryptMethodSs], Safe sh v) :
    c.ssLines sh = [ascii "\x7b", strLine "server" c.hostip.text,
      rawLine "server_port" c.options.serverPort.text, strLine "local_address" c.listen.text,
      rawLine "local_port" c.lport.text, strLine "password" c.options.password,
      rawLine "timeout" c.options.timeoutNumber.text, strLine "method" c.options.encryptMethodSs,
      rawLine "reuse_port" (ascii "true"), member (ascii "fast_open") c.options.fast,
      ascii "\x7d"] := by
  rw [List.forall_mem_cons, List.forall_mem_singleton] at h
  unfold ssLines method
  rw [h.1.get_eq, h.2.get_eq, port_eq, timeoutText_eq]

/-- The lines that the script leaves. -/
theorem hereDoc_map_ssLines (h : ∀ v ∈ [c.options.password, c.options.encryptMethodSs], Safe sh v)
    {found : Bytes} (hfound : c.hostip.text ++ ascii "\"," = found) (plugin opts : Bytes) :
    hereDoc ((c.ssLines sh).map (editLine found plugin opts)) =
      hereDoc [ascii "\x7b", strLine "server" c.hostip.text, strLine "plugin" (render found plugin),
        strLine "plugin_opts" (render found opts),
        rawLine "server_port" c.options.serverPort.text,
        editLine found plugin opts (strLine "local_address" c.listen.text),
        rawLine "local_port" c.lport.text,
        editLine found plugin opts (strLine "password" c.options.password),
        rawLine "timeout" c.options.timeoutNumber.text,
        editLine found plugin opts (strLine "method" c.options.encryptMethodSs),
        rawLine "reuse_port" (ascii "true"), member (ascii "fast_open") c.options.fast,
        ascii "\x7d"] := by
  have hserver : editLine found plugin opts (strLine "server" c.hostip.text) =
      pluginLines found plugin opts (strLine "server" c.hostip.text) := by
    have hline : strLine "server" c.hostip.text = ascii "\"server\":\"" ++ found := by
      rw [← hfound]
      simp [strLine, member, quoted, ascii]
    rw [hline]
    refine editLine_once (h := c.hostip.text ++ [0x22]) (t := []) (c := 0x2C)
      (by simp [← hfound, ascii]) (by decide) ?_ List.not_mem_nil
      (hfound ▸ c.hostip.isSimple) plugin opts
    simp only [List.mem_append, not_or]
    exact ⟨by decide, c.hostip.not_mem (by decide), by decide⟩
  have hsame : ∀ {l}, finds (wordPattern found) l = false → editLine found plugin opts l = l :=
    fun hf ↦ editLine_of_finds (by simp [← hfound, ascii]) plugin opts hf
  have hraw : ∀ {key b}, 0x2C ∉ ascii key → 0x2C ∉ b → 0x22 ∉ b →
      editLine found plugin opts (rawLine key b) = rawLine key b :=
    fun hkey hcomma hquote ↦ hsame (hfound ▸ finds_rawLine hkey hcomma hquote _)
  have hnumber : ∀ {key} (n : JsonNumber), 0x2C ∉ ascii key →
      editLine found plugin opts (rawLine key n.text) = rawLine key n.text :=
    fun n hkey ↦ hraw hkey (not_mem_number n (by decide)) (not_mem_number n (by decide))
  have hplain : ∀ l : Bytes, 0x2C ∉ l → editLine found plugin opts l = l :=
    fun l hl ↦ hsame (hfound ▸ finds_eq_false_of_not_mem (c := 0x2C) (by decide) (by decide) hl)
  have hfast : 0x2C ∉ member (ascii "fast_open") c.options.fast := by
    unfold Options.fast
    split <;> decide
  rw [ssLines_eq h]
  simp only [List.map_cons, List.map_nil]
  rw [hplain (ascii "\x7b") (by decide), hserver, hnumber c.options.serverPort (by decide),
    hnumber c.lport (by decide), hnumber c.options.timeoutNumber (by decide),
    hraw (by decide) (by decide) (by decide), hplain _ hfast, hplain (ascii "\x7d") (by decide),
    hereDoc_pluginLines]

/-- The script adds the plugin behind the address. -/
theorem edits_ssLines (h : ∀ v ∈ [c.options.password, c.options.encryptMethodSs], Safe sh v) :
    Edits sh c.options (c.hostip.text ++ ascii "\",") (c.ssLines sh) c.otherLines
      (object (("server", .str c.hostip.text) :: c.ssMembers))
      (object (("server", .str c.hostip.text) :: (c.options.pluginMembers ++ c.ssMembers))) where
  simple := c.hostip.isSimple
  quote := c.hostip.hasQuote
  lines := by
    rw [ssLines_eq h]
    rw [List.forall_mem_cons, List.forall_mem_singleton] at h
    have hfast : 0x0A ∉ member (ascii "fast_open") c.options.fast := by
      unfold Options.fast
      split <;> decide
    simp only [List.forall_mem_cons, List.not_mem_nil, false_imp_iff, implies_true, and_true]
    exact ⟨by decide, newline_not_mem_strLine (by decide) c.hostip.bare,
      newline_not_mem_rawLine (by decide) (bare_number _),
      newline_not_mem_strLine (by decide) c.listen.bare,
      newline_not_mem_rawLine (by decide) (bare_number _),
      newline_not_mem_strLine (by decide) h.1.bare,
      newline_not_mem_rawLine (by decide) (bare_number _),
      newline_not_mem_strLine (by decide) h.2.bare,
      newline_not_mem_rawLine (by decide) (by decide), hfast, by decide⟩
  denotes := (c.denotes_ssLines sh).mpr (readsAll_of_safe h)
  ne := tokens_plugin_ne c.options _ _ _
  iff plugin opts := by
    have hfound := c.hostip.isSimple
    have hquote : 0x22 ∈ c.hostip.text ++ ascii "\"," := by simp [ascii]
    rw [hereDoc_map_ssLines h rfl]
    rw [List.forall_mem_cons, List.forall_mem_singleton] at h
    generalize c.hostip.text ++ ascii "\"," = found at *
    have hreads := Reads.object <|
      Reads.member (reads_strLine_bare "server" (by decide) c.hostip.bare) <|
      Reads.member (reads_strLine "plugin" (by decide) (render found plugin) c.options.plugin) <|
      Reads.member (reads_strLine "plugin_opts" (by decide) (render found opts) c.options.pluginOpts) <|
      Reads.member (reads_rawLine_num "server_port" (by decide) c.options.serverPort) <|
      Reads.member (reads_editLine hfound hquote "local_address" (by decide) c.listen.bare plugin opts) <|
      Reads.member (reads_rawLine_num "local_port" (by decide) c.lport) <|
      Reads.member (reads_editLine hfound hquote "password" (by decide) h.1.bare plugin opts) <|
      Reads.member (reads_rawLine_num "timeout" (by decide) c.options.timeoutNumber) <|
      Reads.member (reads_editLine hfound hquote "method" (by decide) h.2.bare plugin opts) <|
      Reads.member reads_reuseLine <| reads_fastLine c.options
    refine hreads.iff.trans ?_
    simp only [true_and, and_true, otherLines, List.forall_mem_cons, List.not_mem_nil,
      false_imp_iff, implies_true]

end Call

namespace Options

variable {sh : Shell} {o : Options}

/-- The lines with values that meet the condition. -/
theorem ssServerLines_eq (h : ∀ v ∈ [o.password, o.encryptMethodSs], Safe sh v) :
    o.ssServerLines sh = [ascii "\x7b", ascii "\"server\":[\"::\",\"0.0.0.0\"],",
      rawLine "server_port" o.serverPort.text, strLine "password" o.password,
      rawLine "timeout" o.timeoutNumber.text, strLine "method" o.encryptMethodSs,
      member (ascii "fast_open") o.fast, ascii "\x7d"] := by
  rw [List.forall_mem_cons, List.forall_mem_singleton] at h
  unfold ssServerLines
  rw [h.1.get_eq, h.2.get_eq, Call.port_eq, timeoutText_eq]

/-- The lines that the script leaves. -/
theorem hereDoc_map_ssServerLines (h : ∀ v ∈ [o.password, o.encryptMethodSs], Safe sh v)
    (plugin opts : Bytes) :
    hereDoc ((o.ssServerLines sh).map (editLine (ascii "0.0.0.0\"],") plugin opts)) =
      hereDoc [ascii "\x7b", ascii "\"server\":[\"::\",\"0.0.0.0\"],",
        strLine "plugin" (render (ascii "0.0.0.0\"],") plugin),
        strLine "plugin_opts" (render (ascii "0.0.0.0\"],") opts),
        rawLine "server_port" o.serverPort.text, strLine "password" o.password,
        rawLine "timeout" o.timeoutNumber.text, strLine "method" o.encryptMethodSs,
        member (ascii "fast_open") o.fast, ascii "\x7d"] := by
  have hline : ascii "\"server\":[\"::\",\"0.0.0.0\"]," =
      ascii "\"server\":[\"::\",\"" ++ ascii "0.0.0.0\"]," := by decide
  have hserver : editLine (ascii "0.0.0.0\"],") plugin opts
      (ascii "\"server\":[\"::\",\"0.0.0.0\"],") = pluginLines (ascii "0.0.0.0\"],") plugin opts
        (ascii "\"server\":[\"::\",\"0.0.0.0\"],") := by
    rw [hline]
    exact editLine_once (h := ascii "0.0.0.0\"") (t := ascii ",") (c := 0x5D) (by decide) (by decide)
      (by decide) (by decide) (by decide) plugin opts
  have hsame : ∀ {l}, finds (wordPattern (ascii "0.0.0.0\"],")) l = false →
      editLine (ascii "0.0.0.0\"],") plugin opts l = l :=
    fun hf ↦ editLine_of_finds (by decide) plugin opts hf
  have hplain : ∀ l : Bytes, 0x5D ∉ l → editLine (ascii "0.0.0.0\"],") plugin opts l = l :=
    fun l hl ↦ hsame (finds_eq_false_of_not_mem (h := ascii "0.0.0.") (w := ascii "0\"],") (c := 0x5D)
      (by decide) (by decide) hl)
  have hnumber : ∀ {key} (n : JsonNumber), 0x5D ∉ ascii key →
      editLine (ascii "0.0.0.0\"],") plugin opts (rawLine key n.text) = rawLine key n.text := by
    intro key n hkey
    refine hplain _ ?_
    have hnum := not_mem_number n (c := 0x5D) (by decide)
    have hcomma : (0x5D : UInt8) ∉ ascii "," := by decide
    simp [rawLine, member, quoted, hkey, hnum, hcomma]
  have hfast : 0x5D ∉ member (ascii "fast_open") o.fast := by
    unfold Options.fast
    split <;> decide
  have hquote : ∀ {v : Bytes}, Safe sh v → 0x22 ∉ v :=
    fun hv hmem ↦ absurd (List.all_eq_true.mp hv.bare _ hmem) (by decide)
  rw [ssServerLines_eq h]
  rw [List.forall_mem_cons, List.forall_mem_singleton] at h
  simp only [List.map_cons, List.map_nil]
  rw [hplain (ascii "\x7b") (by decide), hserver, hnumber o.serverPort (by decide),
    hsame (finds_strLine_server (by decide) (hquote h.1)), hnumber o.timeoutNumber (by decide),
    hsame (finds_strLine_server (by decide) (hquote h.2)), hplain _ hfast,
    hplain (ascii "\x7d") (by decide), hereDoc_pluginLines]

/-- The script adds the plugin behind the addresses. -/
theorem edits_ssServerLines (h : ∀ v ∈ [o.password, o.encryptMethodSs], Safe sh v) :
    Edits sh o (ascii "0.0.0.0\"],") (o.ssServerLines sh) [] (object (serverMember :: o.ssServerMembers))
      (object (serverMember :: (o.pluginMembers ++ o.ssServerMembers))) where
  simple := by decide
  quote := ⟨ascii "0.0.0.", 0x30, ascii "],", rfl, by decide⟩
  lines := by
    rw [ssServerLines_eq h]
    rw [List.forall_mem_cons, List.forall_mem_singleton] at h
    have hfast : 0x0A ∉ member (ascii "fast_open") o.fast := by
      unfold Options.fast
      split <;> decide
    simp only [List.forall_mem_cons, List.not_mem_nil, false_imp_iff, implies_true, and_true]
    exact ⟨by decide, by decide, newline_not_mem_rawLine (by decide) (Call.bare_number _),
      newline_not_mem_strLine (by decide) h.1.bare,
      newline_not_mem_rawLine (by decide) (Call.bare_number _),
      newline_not_mem_strLine (by decide) h.2.bare, hfast, by decide⟩
  denotes := (o.denotes_ssServerLines sh).mpr (readsAll_of_safe h)
  ne := tokens_plugin_ne o _ _ _
  iff plugin opts := by
    rw [hereDoc_map_ssServerLines h]
    rw [List.forall_mem_cons, List.forall_mem_singleton] at h
    have hreads := Reads.object <| Reads.member reads_serverLine <|
      Reads.member (reads_strLine "plugin" (by decide) (render (ascii "0.0.0.0\"],") plugin) o.plugin) <|
      Reads.member
        (reads_strLine "plugin_opts" (by decide) (render (ascii "0.0.0.0\"],") opts) o.pluginOpts) <|
      Reads.member (reads_rawLine_num "server_port" (by decide) o.serverPort) <|
      Reads.member (reads_strLine_bare "password" (by decide) h.1.bare) <|
      Reads.member (reads_rawLine_num "timeout" (by decide) o.timeoutNumber) <|
      Reads.member (reads_strLine_bare "method" (by decide) h.2.bare) <| reads_fastLine o
    refine hreads.iff.trans ?_
    simp only [true_and, and_true, List.not_mem_nil, false_imp_iff, implies_true]

end Options

/-! ## When the files denote the options -/

namespace Call

variable {sh : Shell} {c : Call}

/-- Nothing is written for a call that is skipped. -/
theorem genConfigFile_skipped (h : c.Skipped sh) : c.genConfigFile sh = none := by
  unfold genConfigFile
  obtain hmethod | ⟨htype, hslot⟩ := h
  · rw [if_pos hmethod]
  · rw [htype, hslot]
    split <;> rfl

/-- The file of another call. -/
theorem genConfigFile_of_not_skipped (h : ¬ c.Skipped sh) : c.genConfigFile sh =
    match c.type with
    | .ss => some (c.options.withPlugin sh (c.hostip.text ++ ascii "\",") (hereDoc (c.ssLines sh)))
    | .ssr => some ⟨hereDoc (c.ssrLines sh), none⟩
    | .naiveproxy => some ⟨hereDoc (c.naiveLines sh), none⟩
    | .other => none := by
  obtain ⟨hmethod, hslot⟩ := not_or.mp h
  unfold genConfigFile
  rw [if_neg hmethod]
  cases htype : c.type with
  | naiveproxy => exact if_neg fun hudp ↦ hslot ⟨htype, hudp⟩
  | _ => rfl

/-- Where the condition is met the file of a node denotes the values. -/
theorem written_of_safe (h : c.ConfigSafe sh) : c.Written sh := by
  intro out hout
  obtain hskipped | ⟨hvalues, hplugin⟩ := h
  · rw [genConfigFile_skipped hskipped] at hout
    cases hout
  by_cases hskipped : c.Skipped sh
  · rw [genConfigFile_skipped hskipped] at hout
    cases hout
  rw [genConfigFile_of_not_skipped hskipped] at hout
  unfold configValues at hvalues
  unfold configJson
  cases htype : c.type with
  | ss =>
    rw [htype] at hout hvalues
    rw [← Option.some.inj hout]
    exact (edits_ssLines hvalues).withPlugin_of_safe (hplugin htype)
  | ssr =>
    rw [htype] at hout hvalues
    rw [← Option.some.inj hout]
    exact ⟨(c.denotes_ssrLines sh).mpr (readsAll_of_safe hvalues), fun file hfile ↦ by cases hfile⟩
  | naiveproxy =>
    rw [htype] at hout hvalues
    rw [← Option.some.inj hout]
    exact ⟨(c.denotes_naiveLines sh).mpr (lexJson_proxy hvalues), fun file hfile ↦ by cases hfile⟩
  | other =>
    rw [htype] at hout
    cases hout

/-- Where the words match no other names, only then. -/
theorem safe_of_written (hordinary : c.ConfigOrdinary sh) (h : c.Written sh) : c.ConfigSafe sh := by
  by_cases hskipped : c.Skipped sh
  · exact Or.inl hskipped
  right
  have hleaves := hordinary.leaves
  unfold Written at h
  rw [genConfigFile_of_not_skipped hskipped] at h
  unfold configJson at h
  unfold configValues at hleaves ⊢
  cases htype : c.type with
  | ss =>
    rw [htype] at h hleaves
    have hdenotes := h _ rfl
    have hvalues := safe_of_readsAll hleaves ((c.denotes_ssLines sh).mp hdenotes.1)
    exact ⟨hvalues, fun _ hwhich ↦ (edits_ssLines hvalues).safe_of_withPlugin
      (hordinary.plugin htype hwhich) hdenotes hwhich⟩
  | ssr =>
    rw [htype] at h hleaves
    have hdenotes := (h _ rfl).1
    exact ⟨safe_of_readsAll hleaves ((c.denotes_ssrLines sh).mp hdenotes), fun hss ↦ by cases hss⟩
  | naiveproxy =>
    rw [htype] at h hleaves
    have hdenotes := (h _ rfl).1
    exact ⟨safe_of_lexJson_proxy hleaves ((c.denotes_naiveLines sh).mp hdenotes),
      fun hss ↦ by cases hss⟩
  | other => exact ⟨fun v hv ↦ absurd hv List.not_mem_nil, fun hss ↦ by cases hss⟩

end Call

namespace Options

variable {sh : Shell} {o : Options} {type : ServerType}

/-- Where the condition is met the file of a server denotes the values. -/
theorem written_of_safe (h : o.ServiceSafe sh type) : o.Written sh type := by
  intro out hout
  obtain ⟨hvalues, hplugin⟩ := h
  cases type with
  | ss =>
    rw [← Option.some.inj hout]
    exact (edits_ssServerLines hvalues).withPlugin_of_safe (hplugin rfl)
  | ss2022 =>
    rw [← Option.some.inj hout]
    exact ⟨(o.denotes_ss2022ServerLines sh).mpr (readsAll_of_safe hvalues),
      fun file hfile ↦ by cases hfile⟩
  | ssr =>
    rw [← Option.some.inj hout]
    exact ⟨(o.denotes_ssrServerLines sh).mpr (readsAll_of_safe hvalues),
      fun file hfile ↦ by cases hfile⟩
  | other => cases hout

/-- Where the words match no other names, only then. -/
theorem safe_of_written (hordinary : o.ServiceOrdinary sh type) (h : o.Written sh type) :
    o.ServiceSafe sh type := by
  have hleaves := hordinary.leaves
  cases type with
  | ss =>
    have hdenotes := h _ rfl
    have hvalues := safe_of_readsAll hleaves ((o.denotes_ssServerLines sh).mp hdenotes.1)
    exact ⟨hvalues, fun _ hwhich ↦ (edits_ssServerLines hvalues).safe_of_withPlugin
      (hordinary.plugin rfl hwhich) hdenotes hwhich⟩
  | ss2022 =>
    have hdenotes := (h _ rfl).1
    exact ⟨safe_of_readsAll hleaves ((o.denotes_ss2022ServerLines sh).mp hdenotes),
      fun hss ↦ by cases hss⟩
  | ssr =>
    have hdenotes := (h _ rfl).1
    exact ⟨safe_of_readsAll hleaves ((o.denotes_ssrServerLines sh).mp hdenotes),
      fun hss ↦ by cases hss⟩
  | other => exact ⟨fun v hv ↦ absurd hv List.not_mem_nil, fun hss ↦ by cases hss⟩

end Options

/-- **Configuration files.** The file of a node or a server denotes the values of its options, and so
does the file with the plugin, where the values meet the condition; in a directory in which the words of
the values match no other names, only there. -/
theorem written_iff (sh : Shell) (c : Call) (o : Options) (type : ServerType) :
    ((c.ConfigSafe sh → c.Written sh) ∧
        (c.ConfigOrdinary sh → (c.Written sh ↔ c.ConfigSafe sh))) ∧
      (o.ServiceSafe sh type → o.Written sh type) ∧
        (o.ServiceOrdinary sh type → (o.Written sh type ↔ o.ServiceSafe sh type)) :=
  ⟨⟨Call.written_of_safe, fun h ↦ ⟨Call.safe_of_written h, Call.written_of_safe⟩⟩,
    Options.written_of_safe, fun h ↦ ⟨Options.safe_of_written h, Options.written_of_safe⟩⟩

/-- A router with nothing in the directory and no plugins. -/
def emptyShell : Shell := ⟨fun _ ↦ [], fun _ ↦ false, fun _ file ↦ file, fun _ _ ↦ rfl⟩

/-- A node for `ssr` with a password. -/
def passwordCall (password : Bytes) : Call where
  options :=
    { server := ascii "192.0.2.1", serverPort := ⟨ascii "8388", by decide⟩, timeout := none,
      fastOpen := false, username := [], password := password, encryptMethodSs := [],
      encryptMethod := ascii "aes-256-cfb", protocol := ascii "origin", protocolParam := [],
      obfs := ascii "plain", obfsParam := [], plugin := [], pluginOpts := [] }
  type := .ssr
  slot := .tcp
  listen := ⟨ascii "0.0.0.0", by decide, by decide⟩
  threads := none
  kcpEnable := false
  address := fun _ ↦ ⟨ascii "192.0.2.1", by decide, by decide⟩
  localPort := fun _ ↦ ⟨ascii "1234", by decide⟩

/-- No word matches another name. -/
theorem leaves_emptyShell (v : Bytes) : Leaves emptyShell.names v := fun _ _ ↦ Or.inl rfl

/-- A word that is no option and needs no escape. -/
theorem safe_emptyShell {v : Bytes} (hspaced : joined (words v) = v)
    (hoption : (words v).head?.all (!isOption ·) = true) (hbare : v.all isBare = true) :
    Safe emptyShell v := by
  refine ⟨⟨leaves_emptyShell v, hspaced, fun w hw ↦ ?_⟩, hbare⟩
  rw [hw] at hoption
  simpa using hoption

/-- The file of a node with the password `secret`. -/
theorem written_secret : (passwordCall (ascii "secret")).Written emptyShell := by
  refine (written_iff emptyShell (passwordCall (ascii "secret"))
    (passwordCall (ascii "secret")).options .ssr).1.1 (Or.inr ⟨?_, fun h ↦ by cases h⟩)
  show ∀ v ∈ [ascii "secret", ascii "aes-256-cfb", ascii "origin", [], ascii "plain", []], _
  simp only [List.forall_mem_cons, List.not_mem_nil, false_imp_iff, implies_true, and_true]
  exact ⟨safe_emptyShell (by decide) (by decide) (by decide),
    safe_emptyShell (by decide) (by decide) (by decide),
    safe_emptyShell (by decide) (by decide) (by decide),
    safe_emptyShell (by decide) (by decide) (by decide),
    safe_emptyShell (by decide) (by decide) (by decide),
    safe_emptyShell (by decide) (by decide) (by decide)⟩

/-- A password with a quotation mark ends the string in the file. -/
theorem not_written_quote : ¬ (passwordCall (ascii "p\"w")).Written emptyShell := by
  intro h
  have hordinary : (passwordCall (ascii "p\"w")).ConfigOrdinary emptyShell :=
    ⟨fun v _ ↦ leaves_emptyShell v, fun hss ↦ by cases hss⟩
  obtain hskipped | ⟨hvalues, -⟩ := Call.safe_of_written hordinary h
  · obtain hmethod | ⟨htype, -⟩ := hskipped
    · revert hmethod
      decide
    · cases htype
  · have hbare := (hvalues (ascii "p\"w") List.mem_cons_self).bare
    revert hbare
    decide

end OpenWrtCompile.Overwall.ConfigFiles
