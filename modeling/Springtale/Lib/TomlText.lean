import Springtale.Lib.TextCodec
import Springtale.Lib.Transition

/-! The lexical rules of TOML: where the strings of a document begin and end and what they contain.
A text may be put into a string that takes it without a change to anything else. -/
namespace Springtale.Lib.TomlText

inductive Mark where
  | quote
  | apostrophe
deriving DecidableEq

def Mark.char : Mark → Char
  | .quote => '"'
  | .apostrophe => '\x27'

/-- No control character, but for a tab. -/
def isText (c : Char) : Bool := c == '\t' || (32 ≤ c.toNat && c.toNat != 127)

/-- A character that stands for itself in a string; only quoted strings have escapes. -/
def Mark.takes (m : Mark) (c : Char) : Bool :=
  isText c && c != m.char && !(m == .quote && c == '\\')

/-- What is left of an escape. -/
inductive Escape where
  | start
  | digits (left : Nat) (value : Nat)
deriving DecidableEq

def Escape.read : Escape → Char → Option (Escape ⊕ Char)
  | .start, c =>
    if c = 'b' then some (.inr '\x08')
    else if c = 't' then some (.inr '\t')
    else if c = 'n' then some (.inr '\n')
    else if c = 'f' then some (.inr '\x0c')
    else if c = 'r' then some (.inr '\r')
    else if c = '"' then some (.inr '"')
    else if c = '\\' then some (.inr '\\')
    else if c = 'u' then some (.inl (.digits 3 0))
    else if c = 'U' then some (.inl (.digits 7 0))
    else none
  | .digits left value, c =>
    (hexNibble c).bind fun digit =>
      match left with
      | left + 1 => some (.inl (.digits left (value * 16 + digit)))
      | 0 =>
        if (value * 16 + digit).isValidChar then some (.inr (Char.ofNat (value * 16 + digit)))
        else none

/-- A character outside of strings, or a string. -/
inductive Token (β : Type) where
  | sym (c : Char)
  | str (body : β)
deriving DecidableEq

def Token.map {β γ : Type} (f : β → γ) : Token β → Token γ
  | .sym c => .sym c
  | .str body => .str (f body)

/-- Where in a document the reader is; the bodies of strings are of any letters. -/
inductive Mode (α : Type) where
  | between
  | comment
  | line (m : Mark) (body : List α)
  | lineEscape (body : List α) (e : Escape)
  /-- After the mark that may end a string of one line. -/
  | closed (m : Mark) (body : List α)
  /-- After the marks that open a string of several lines. -/
  | first (m : Mark)
  /-- In a string of several lines, after some marks. -/
  | lines (m : Mark) (body : List α) (marks : Nat)
  | linesEscape (body : List α) (e : Escape)
  /-- After the backslash at the end of a line. -/
  | trim (body : List α) (crossed : Bool)
  /-- Before the newline that a carriage return must have. -/
  | carriage (next : Mode α)

structure State (α : Type) where
  done : List (Token (List α))
  mode : Mode α

section Step

variable {α : Type} (lit : Char → α)

/-- A character outside of strings. -/
def outside (done : List (Token (List α))) (c : Char) : State α :=
  if c = '"' then ⟨done, .line .quote []⟩
  else if c = '\x27' then ⟨done, .line .apostrophe []⟩
  else if c = '#' then ⟨done, .comment⟩
  else if c = '\r' then ⟨done ++ [.sym '\n'], .carriage .between⟩
  else ⟨done ++ [.sym c], .between⟩

/-- A character in a string of several lines. -/
def inLines (done : List (Token (List α))) (m : Mark) (body : List α) (marks : Nat) (c : Char) :
    Option (State α) :=
  if c = m.char then (if marks < 5 then some ⟨done, .lines m body (marks + 1)⟩ else none)
  else if 3 ≤ marks then
    some (outside (done ++ [.str (body ++ List.replicate (marks - 3) (lit m.char))]) c)
  else
    let before := body ++ List.replicate marks (lit m.char)
    if m = .quote ∧ c = '\\' then some ⟨done, .linesEscape before .start⟩
    else if c = '\r' then some ⟨done, .carriage (.lines m (before ++ [lit '\n']) 0)⟩
    else if c = '\n' ∨ m.takes c = true then some ⟨done, .lines m (before ++ [lit c]) 0⟩
    else none

def step (s : State α) (c : Char) : Option (State α) :=
  match s.mode with
  | .between => some (outside s.done c)
  | .comment =>
    if c = '\n' then some ⟨s.done ++ [.sym '\n'], .between⟩
    else if c = '\r' then some ⟨s.done ++ [.sym '\n'], .carriage .between⟩
    else if isText c = true then some s
    else none
  | .line m body =>
    if c = m.char then some ⟨s.done, .closed m body⟩
    else if m = .quote ∧ c = '\\' then some ⟨s.done, .lineEscape body .start⟩
    else if m.takes c = true then some ⟨s.done, .line m (body ++ [lit c])⟩
    else none
  | .lineEscape body e =>
    (e.read c).map fun
      | .inl e => ⟨s.done, .lineEscape body e⟩
      | .inr c => ⟨s.done, .line .quote (body ++ [lit c])⟩
  | .closed m body =>
    if c = m.char then (if body.isEmpty = true then some ⟨s.done, .first m⟩ else none)
    else some (outside (s.done ++ [.str body]) c)
  | .first m =>
    if c = '\n' then some ⟨s.done, .lines m [] 0⟩
    else if c = '\r' then some ⟨s.done, .carriage (.lines m [] 0)⟩
    else inLines lit s.done m [] 0 c
  | .lines m body marks => inLines lit s.done m body marks c
  | .linesEscape body e =>
    if e = .start ∧ (c = ' ' ∨ c = '\t') then some ⟨s.done, .trim body false⟩
    else if e = .start ∧ c = '\n' then some ⟨s.done, .trim body true⟩
    else if e = .start ∧ c = '\r' then some ⟨s.done, .carriage (.trim body true)⟩
    else (e.read c).map fun
      | .inl e => ⟨s.done, .linesEscape body e⟩
      | .inr c => ⟨s.done, .lines .quote (body ++ [lit c]) 0⟩
  | .trim body crossed =>
    if c = ' ' ∨ c = '\t' then some s
    else if c = '\n' then some ⟨s.done, .trim body true⟩
    else if c = '\r' then some ⟨s.done, .carriage (.trim body true)⟩
    else if crossed = true then inLines lit s.done .quote body 0 c
    else none
  | .carriage next => if c = '\n' then some ⟨s.done, next⟩ else none

/-- The strings and other characters, once the document ends. -/
def finish (s : State α) : Option (List (Token (List α))) :=
  match s.mode with
  | .between | .comment => some s.done
  | .closed _ body => some (s.done ++ [.str body])
  | .lines m body marks =>
    if 3 ≤ marks then some (s.done ++ [.str (body ++ List.replicate (marks - 3) (lit m.char))])
    else none
  | _ => none

/-- A letter that is no character of the document, put into a string. -/
def put (s : State α) (a : α) : Option (State α) :=
  match s.mode with
  | .line m body => some ⟨s.done, .line m (body ++ [a])⟩
  | .lines m body 0 => some ⟨s.done, .lines m (body ++ [a]) 0⟩
  | .first m => some ⟨s.done, .lines m [a] 0⟩
  | _ => none

/-- A text that the string takes as it is; a newline directly after the opening marks is none of the
string's. -/
def Mode.fits (mode : Mode α) (text : List Char) : Bool :=
  match mode with
  | .line m _ => text.all m.takes
  | .lines m _ 0 => text.all fun c => c == '\n' || m.takes c
  | .first m =>
    (text.all fun c => c == '\n' || m.takes c) && text.head?.any fun c => c != '\n'
  | _ => false

end Step

/-- The strings of a document and its other characters. -/
def lex (document : List Char) : Option (List (Token (List Char))) :=
  (document.foldlM (step id) ⟨[], .between⟩).bind (finish id)

section Holes

variable {ι : Type}

def stepItem (s : State (Char ⊕ ι)) : Char ⊕ ι → Option (State (Char ⊕ ι))
  | .inl c => step .inl s c
  | .inr i => put s (.inr i)

def readItems (items : List (Char ⊕ ι)) : Option (State (Char ⊕ ι)) :=
  items.foldlM stepItem ⟨[], .between⟩

/-- The same for a document with holes in its strings. -/
def lexItems (items : List (Char ⊕ ι)) : Option (List (Token (List (Char ⊕ ι)))) :=
  (readItems items).bind (finish .inl)

/-- The document with a text in each hole. -/
def fill (text : ι → List Char) (items : List (Char ⊕ ι)) : List Char :=
  items.flatMap (Sum.elim (fun c => [c]) text)

def fitsNext (text : ι → List Char) (before : List (Char ⊕ ι)) : Char ⊕ ι → Bool
  | .inl _ => true
  | .inr i => (readItems before).all fun s => s.mode.fits (text i)

/-- Each hole stands in a string that takes its text. -/
def Fits (text : ι → List Char) (items : List (Char ⊕ ι)) : Prop :=
  EachCall (fun before item => fitsNext text before item = true) items

instance (text : ι → List Char) (items : List (Char ⊕ ι)) : Decidable (Fits text items) :=
  inferInstanceAs (Decidable (EachCall _ items))

end Holes

section Map

variable {α β : Type} (f : List α → List β)

def Mode.map : Mode α → Mode β
  | .between => .between
  | .comment => .comment
  | .line m body => .line m (f body)
  | .lineEscape body e => .lineEscape (f body) e
  | .closed m body => .closed m (f body)
  | .first m => .first m
  | .lines m body marks => .lines m (f body) marks
  | .linesEscape body e => .linesEscape (f body) e
  | .trim body crossed => .trim (f body) crossed
  | .carriage next => .carriage next.map

def State.map (s : State α) : State β := ⟨s.done.map (Token.map f), s.mode.map f⟩

variable {f} {litA : Char → α} {litB : Char → β} {s s' : State α}

theorem State.map_mk (done : List (Token (List α))) (mode : Mode α) :
    State.map f ⟨done, mode⟩ = ⟨done.map (Token.map f), mode.map f⟩ := rfl

theorem map_replicate (hpush : ∀ body c, f (body ++ [litA c]) = f body ++ [litB c])
    (body : List α) (n : Nat) (c : Char) :
    f (body ++ List.replicate n (litA c)) = f body ++ List.replicate n (litB c) := by
  induction n with
  | zero => simp
  | succ n ih =>
    rw [List.replicate_succ', ← List.append_assoc, hpush, ih, List.append_assoc,
      ← List.replicate_succ']

theorem map_outside (hnil : f [] = []) (done : List (Token (List α))) (c : Char) :
    (outside done c).map f = outside (done.map (Token.map f)) c := by
  unfold outside
  split_ifs <;> simp [State.map_mk, Mode.map, Token.map, hnil]

theorem map_inLines (hnil : f [] = []) (hpush : ∀ body c, f (body ++ [litA c]) = f body ++ [litB c])
    (done : List (Token (List α))) (m : Mark) (body : List α) (marks : Nat) (c : Char) :
    (inLines litA done m body marks c).map (State.map f) =
      inLines litB (done.map (Token.map f)) m (f body) marks c := by
  have hmarks := map_replicate hpush body
  have hafter : ∀ d, f (body ++ (List.replicate marks (litA m.char) ++ [litA d])) =
      f body ++ (List.replicate marks (litB m.char) ++ [litB d]) := by
    intro d
    rw [← List.append_assoc, hpush, hmarks, List.append_assoc]
  unfold inLines
  split_ifs <;> simp [State.map_mk, Mode.map, Token.map, hmarks, hafter, map_outside hnil]

/-- What a body is mapped to does not matter to the reader, as long as no string is told to be empty
that was not. -/
theorem step_map (hnil : f [] = [])
    (hpush : ∀ body c, f (body ++ [litA c]) = f body ++ [litB c]) {c : Char}
    (h : step litA s c = some s') : step litB (s.map f) c = some (s'.map f) := by
  obtain ⟨done, mode⟩ := s
  cases mode with
  | between =>
    cases h
    simp [step, State.map_mk, Mode.map, map_outside hnil]
  | comment =>
    simp only [step, State.map_mk, Mode.map] at h ⊢
    split_ifs at h ⊢ <;> cases h <;> simp [State.map_mk, Mode.map, Token.map]
  | line m body =>
    simp only [step, State.map_mk, Mode.map] at h ⊢
    split_ifs at h ⊢ <;> cases h <;> simp [State.map_mk, Mode.map, hpush]
  | lineEscape body e =>
    simp only [step, State.map_mk, Mode.map] at h ⊢
    obtain ⟨next, hread, rfl⟩ := Option.map_eq_some_iff.mp h
    rw [hread]
    cases next <;> simp [State.map_mk, Mode.map, hpush]
  | closed m body =>
    simp only [step, State.map_mk, Mode.map] at h ⊢
    split_ifs at h with hmark hempty
    · cases h
      have hbody : body = [] := List.isEmpty_iff.mp hempty
      simp [hmark, hbody, hnil, State.map_mk, Mode.map]
    · cases h
      simp [hmark, map_outside hnil, Token.map]
  | first m =>
    simp only [step, State.map_mk, Mode.map] at h ⊢
    split_ifs at h ⊢
    · cases h
      simp [State.map_mk, Mode.map, hnil]
    · cases h
      simp [State.map_mk, Mode.map, hnil]
    · have hmap := map_inLines hnil hpush done m [] 0 c
      rw [h, hnil] at hmap
      exact hmap.symm
  | lines m body marks =>
    simp only [step, State.map_mk, Mode.map] at h ⊢
    rw [← map_inLines hnil hpush, h]
    rfl
  | linesEscape body e =>
    simp only [step, State.map_mk, Mode.map] at h ⊢
    split_ifs at h ⊢
    · cases h
      rfl
    · cases h
      rfl
    · cases h
      rfl
    · obtain ⟨next, hread, rfl⟩ := Option.map_eq_some_iff.mp h
      rw [hread]
      cases next <;> simp [State.map_mk, Mode.map, hpush]
  | trim body crossed =>
    simp only [step, State.map_mk, Mode.map] at h ⊢
    split_ifs at h ⊢
    · cases h
      rfl
    · cases h
      rfl
    · cases h
      rfl
    · rw [← map_inLines hnil hpush, h]
      rfl
  | carriage next =>
    simp only [step, State.map_mk, Mode.map] at h ⊢
    split_ifs at h ⊢
    cases h
    rfl

theorem finish_map (hpush : ∀ body c, f (body ++ [litA c]) = f body ++ [litB c])
    {tokens : List (Token (List α))} (h : finish litA s = some tokens) :
    finish litB (s.map f) = some (tokens.map (Token.map f)) := by
  obtain ⟨done, mode⟩ := s
  cases mode with
  | between | comment =>
    cases h
    rfl
  | closed m body =>
    cases h
    simp [finish, State.map_mk, Mode.map, Token.map]
  | lines m body marks =>
    simp only [finish, State.map_mk, Mode.map] at h ⊢
    split_ifs at h ⊢
    cases h
    simp [Token.map, map_replicate hpush]
  | line | lineEscape | first | linesEscape | trim | carriage => cases h

end Map

section Fill

variable {ι : Type} {text : ι → List Char}

theorem fill_snoc (items : List (Char ⊕ ι)) (item : Char ⊕ ι) :
    fill text (items ++ [item]) = fill text items ++ Sum.elim (fun c => [c]) text item := by
  simp [fill]

theorem foldlM_takes {m : Mark} (done : List (Token (List Char))) (body : List Char)
    {chars : List Char} (h : ∀ c ∈ chars, m.takes c = true) :
    chars.foldlM (step id) ⟨done, .line m body⟩ = some ⟨done, .line m (body ++ chars)⟩ := by
  induction chars generalizing body with
  | nil => simp
  | cons c chars ih =>
    have hc := h c (List.mem_cons_self ..)
    have hmark : c ≠ m.char := by
      rintro rfl
      simp [Mark.takes] at hc
    have hslash : ¬(m = .quote ∧ c = '\\') := by
      rintro ⟨rfl, rfl⟩
      simp [Mark.takes] at hc
    rw [List.foldlM_cons, step]
    simp only [hmark, hslash, hc, if_false, if_true]
    have hrest := ih (body ++ [c]) fun c hc => h c (List.mem_cons_of_mem _ hc)
    simpa using hrest

/-- A character that a string of several lines takes. -/
theorem inLines_takes {m : Mark} (done : List (Token (List Char))) (body : List Char) {c : Char}
    (h : c = '\n' ∨ m.takes c = true) :
    inLines id done m body 0 c = some ⟨done, .lines m (body ++ [c]) 0⟩ := by
  have hmark : c ≠ m.char := by
    rintro rfl
    cases m <;> simp [Mark.takes, Mark.char] at h
  have hslash : ¬(m = .quote ∧ c = '\\') := by
    rintro ⟨rfl, rfl⟩
    simp [Mark.takes] at h
  have hreturn : c ≠ '\r' := by
    rintro rfl
    simp [Mark.takes, isText] at h
  simp [inLines, hmark, hslash, hreturn, h]

theorem foldlM_inLines {m : Mark} (done : List (Token (List Char))) (body : List Char)
    {chars : List Char} (h : ∀ c ∈ chars, c = '\n' ∨ m.takes c = true) :
    chars.foldlM (step id) ⟨done, .lines m body 0⟩ = some ⟨done, .lines m (body ++ chars) 0⟩ := by
  induction chars generalizing body with
  | nil => simp
  | cons c chars ih =>
    have hfirst : step id ⟨done, .lines m body 0⟩ c = some ⟨done, .lines m (body ++ [c]) 0⟩ :=
      inLines_takes done body (h c (List.mem_cons_self ..))
    have hrest := ih (body ++ [c]) fun c hc => h c (List.mem_cons_of_mem _ hc)
    rw [List.foldlM_cons, hfirst]
    simpa using hrest

/-- A text that a string takes is read as a part of that string. -/
theorem foldlM_fits {s s' : State (Char ⊕ ι)} {i : ι} (hfits : s.mode.fits (text i) = true)
    (h : put s (.inr i) = some s') :
    (text i).foldlM (step id) (s.map (fill text)) = some (s'.map (fill text)) := by
  obtain ⟨done, mode⟩ := s
  cases mode with
  | line m body =>
    cases h
    rw [State.map_mk, State.map_mk, Mode.map, Mode.map, fill_snoc]
    exact foldlM_takes _ _ (List.all_eq_true.mp hfits)
  | lines m body marks =>
    cases marks with
    | succ marks => cases h
    | zero =>
      cases h
      rw [State.map_mk, State.map_mk, Mode.map, Mode.map, fill_snoc]
      apply foldlM_inLines
      simpa [Mode.fits] using hfits
  | first m =>
    cases h
    rw [State.map_mk, State.map_mk, Mode.map, Mode.map]
    obtain ⟨hall, hhead⟩ := Bool.and_eq_true_iff.mp hfits
    have htakes : ∀ c ∈ text i, c = '\n' ∨ m.takes c = true := by simpa using hall
    have hfill : fill text [.inr i] = text i := by simp [fill]
    rw [hfill]
    cases hchars : text i with
    | nil => simp [hchars] at hhead
    | cons c chars =>
      rw [hchars] at htakes hhead
      have hline : c ≠ '\n' := by simpa using hhead
      have hreturn : c ≠ '\r' := by
        rintro rfl
        have := htakes '\r' (List.mem_cons_self ..)
        cases m <;> simp [Mark.takes, isText] at this
      have hrest := foldlM_inLines (done.map (Token.map (fill text))) [c]
        fun c hc => htakes c (List.mem_cons_of_mem _ hc)
      rw [List.foldlM_cons, step]
      simp only [hline, hreturn, if_false]
      rw [inLines_takes _ _ (htakes c (List.mem_cons_self ..))]
      exact hrest
  | between | comment | lineEscape | closed | linesEscape | trim | carriage => cases h

theorem readItems_snoc (items : List (Char ⊕ ι)) (item : Char ⊕ ι) :
    readItems (items ++ [item]) = (readItems items).bind fun s => stepItem s item := by
  simp [readItems, List.foldlM_append]

/-- The filled document is read as the one with holes, with each text where its hole was. -/
theorem foldlM_fill {items : List (Char ⊕ ι)} {s : State (Char ⊕ ι)} (hfits : Fits text items)
    (h : readItems items = some s) :
    (fill text items).foldlM (step id) ⟨[], .between⟩ = some (s.map (fill text)) := by
  induction items using List.reverseRecOn generalizing s with
  | nil =>
    cases h
    rfl
  | append_singleton items item ih =>
    rw [readItems_snoc] at h
    obtain ⟨before, hread, hstep⟩ := Option.bind_eq_some_iff.mp h
    obtain ⟨hitems, hlast⟩ := eachCall_snoc.mp hfits
    have hbefore := ih hitems hread
    rw [fill_snoc, List.foldlM_append, hbefore]
    cases item with
    | inl c =>
      have hpush : ∀ body (c : Char), fill text (body ++ [.inl c]) = fill text body ++ [id c] := by
        intro body c
        exact fill_snoc ..
      have hchar := step_map (f := fill text) rfl hpush hstep
      simp [hchar]
    | inr i =>
      rw [fitsNext, hread] at hlast
      exact foldlM_fits hlast hstep

/-- The strings of the filled document are those of the one with holes, filled. -/
theorem lex_fill {items : List (Char ⊕ ι)} {tokens : List (Token (List (Char ⊕ ι)))}
    (hfits : Fits text items) (h : lexItems items = some tokens) :
    lex (fill text items) = some (tokens.map (Token.map (fill text))) := by
  obtain ⟨s, hread, hfinish⟩ := Option.bind_eq_some_iff.mp h
  rw [lex, foldlM_fill hfits hread]
  exact finish_map (fun body c => fill_snoc ..) hfinish

end Fill

section Renamed

variable {ι κ : Type} (g : ι → κ)

/-- The same with other holes. -/
def renamed (body : List (Char ⊕ ι)) : List (Char ⊕ κ) := body.map (Sum.map id g)

theorem renamed_snoc (body : List (Char ⊕ ι)) (item : Char ⊕ ι) :
    renamed g (body ++ [item]) = renamed g body ++ [Sum.map id g item] := List.map_append

theorem put_renamed {s s' : State (Char ⊕ ι)} {i : ι} (h : put s (.inr i) = some s') :
    put (s.map (renamed g)) (.inr (g i)) = some (s'.map (renamed g)) := by
  obtain ⟨done, mode⟩ := s
  cases mode with
  | line m body =>
    cases h
    simp [put, State.map_mk, Mode.map, renamed_snoc]
  | first m =>
    cases h
    rfl
  | lines m body marks =>
    cases marks with
    | zero =>
      cases h
      simp [put, State.map_mk, Mode.map, renamed_snoc]
    | succ marks => cases h
  | between | comment | lineEscape | closed | linesEscape | trim | carriage => cases h

theorem readItems_renamed {items : List (Char ⊕ ι)} {s : State (Char ⊕ ι)}
    (h : readItems items = some s) :
    readItems (renamed g items) = some (s.map (renamed g)) := by
  induction items using List.reverseRecOn generalizing s with
  | nil =>
    cases h
    rfl
  | append_singleton items item ih =>
    rw [readItems_snoc] at h
    obtain ⟨before, hread, hstep⟩ := Option.bind_eq_some_iff.mp h
    rw [renamed_snoc, readItems_snoc, ih hread, Option.bind_some]
    cases item with
    | inl c => exact step_map rfl (fun body c => renamed_snoc g body (.inl c)) hstep
    | inr i => exact put_renamed g hstep

theorem lexItems_renamed {items : List (Char ⊕ ι)} {tokens : List (Token (List (Char ⊕ ι)))}
    (h : lexItems items = some tokens) :
    lexItems (renamed g items) = some (tokens.map (Token.map (renamed g))) := by
  obtain ⟨s, hread, hfinish⟩ := Option.bind_eq_some_iff.mp h
  rw [lexItems, readItems_renamed g hread]
  exact finish_map (fun body c => renamed_snoc g body (.inl c)) hfinish

/-- The holes of the strings are those of the document. -/
theorem mem_of_lexItems {items : List (Char ⊕ ι)} {tokens : List (Token (List (Char ⊕ ι)))}
    (h : lexItems items = some tokens) {body : List (Char ⊕ ι)} (hbody : .str body ∈ tokens) {i : ι}
    (hi : .inr i ∈ body) : Sum.inr i ∈ items := by
  classical
  -- a hole that is none of the document's would be read as none
  let known : ι → Option ι := fun i => if Sum.inr i ∈ items then some i else none
  have hsame : renamed known items = renamed some items := by
    refine List.map_congr_left fun item hitem => ?_
    cases item with
    | inl c => rfl
    | inr i => exact congrArg Sum.inr (if_pos hitem)
  have hknown := lexItems_renamed known h
  rw [hsame, lexItems_renamed some h] at hknown
  have htoken := List.map_inj_left.mp (Option.some.inj hknown) _ hbody
  have hbodies : renamed some body = renamed known body := Token.str.inj htoken
  have hhole : some i = known i := Sum.inr.inj (List.map_inj_left.mp hbodies _ hi)
  by_contra hnot
  rw [show known i = none from if_neg hnot] at hhole
  cases hhole

end Renamed

section Documents

/-- What leads one step down into a document. -/
inductive Part where
  | key (name : List Char)
  | index (i : Nat)
deriving DecidableEq

inductive Leaf (β : Type) where
  | string (body : β)
  | scalar (text : List Char)
  | emptyTable
  | emptyArray
deriving DecidableEq

def Leaf.map {β γ : Type} (g : β → γ) : Leaf β → Leaf γ
  | .string body => .string (g body)
  | .scalar text => .scalar text
  | .emptyTable => .emptyTable
  | .emptyArray => .emptyArray

/-- A parsed document: the values at the ends of its paths. -/
structure Document (β : Type) where
  leaves : List (List Part × Leaf β)
deriving DecidableEq

def Document.map {β γ : Type} (g : β → γ) (doc : Document β) : Document γ :=
  ⟨doc.leaves.map fun leaf => (leaf.1, leaf.2.map g)⟩

def Document.HasKey {β : Type} (doc : Document β) (name : List Char) : Prop :=
  ∃ leaf ∈ doc.leaves, .key name ∈ leaf.1

/-- The rules above the lexical ones, over strings of any kind that have a text. A string that is no
key is put into the document without a look at its text. -/
structure Grammar where
  build : {β : Type} → (β → List Char) → List (Token β) → Option (Document β)
  rename : ∀ {β γ : Type} (g : β → γ) (text : γ → List Char) (tokens : List (Token β)),
    build text (tokens.map (Token.map g)) =
      (build (fun body => text (g body)) tokens).map (Document.map g)
  unread : ∀ {β : Type} (text text' : β → List Char) (tokens : List (Token β)) (doc : Document β),
    build text tokens = some doc →
      (∀ body, .str body ∈ tokens → doc.HasKey (text body) → text' body = text body) →
        build text' tokens = some doc

def Grammar.parse (grammar : Grammar) (document : List Char) : Option (Document (List Char)) :=
  (lex document).bind (grammar.build id)

theorem hasKey_map {β γ : Type} {g : β → γ} {doc : Document β} {name : List Char} :
    (doc.map g).HasKey name ↔ doc.HasKey name := by
  simp [Document.HasKey, Document.map]

/-- Two texts for the holes of a document give one structure, in which only the strings with a hole
differ, if no such string is a key. -/
theorem parse_fill {ι : Type} (grammar : Grammar) {text text' : ι → List Char}
    {items : List (Char ⊕ ι)} {tokens : List (Token (List (Char ⊕ ι)))}
    {doc : Document (List Char)} (hitems : lexItems items = some tokens)
    (hfits : Fits text items) (hfits' : Fits text' items)
    (hdoc : grammar.parse (fill text items) = some doc)
    (hkeys : ∀ body, .str body ∈ tokens → doc.HasKey (fill text body) →
      fill text' body = fill text body) :
    ∃ holed : Document (List (Char ⊕ ι)), doc = holed.map (fill text) ∧
      grammar.parse (fill text' items) = some (holed.map (fill text')) := by
  rw [Grammar.parse, lex_fill hfits hitems, Option.bind_some, grammar.rename] at hdoc
  obtain ⟨holed, hbuild, rfl⟩ := Option.map_eq_some_iff.mp hdoc
  refine ⟨holed, rfl, ?_⟩
  rw [Grammar.parse, lex_fill hfits' hitems, Option.bind_some, grammar.rename]
  have hsame : grammar.build (fun body => id (fill text' body)) tokens = some holed := by
    apply grammar.unread _ _ _ _ hbuild
    intro body hbody hkey
    exact hkeys body hbody (hasKey_map.mpr hkey)
  rw [hsame]
  rfl

end Documents

end Springtale.Lib.TomlText
