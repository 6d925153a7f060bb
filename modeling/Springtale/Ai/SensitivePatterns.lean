import Springtale.Lib.Regex

/-! The patterns that the sanitiser looks for, in their order. -/
namespace Springtale.Ai.Sanitize

open Springtale.Lib

inductive PatternType where
  | pii
  | credential
  | promptInjection
  | contentTooLong
  | suspiciousEncoding
deriving DecidableEq

structure SensitivePattern where
  patternType : PatternType
  regex : Regex
  description : String

/-! The notation of the patterns. -/

def nothing : Regex := .repeat (.set []) 0 (some 0)

def seq : List Regex → Regex
  | [] => nothing
  | [r] => r
  | r :: rs => .cat r (seq rs)

def oneOf : List Regex → Regex
  | [] => .set []
  | [r] => r
  | r :: rs => .alt r (oneOf rs)

def char (c : Char) : Regex := .set [.range c c]

def text (s : List Char) : Regex := seq (s.map char)

/-- Without regard to case. -/
def anyCase (s : List Char) : Regex := seq (s.map fun c => .set [.folded c c])

def opt (r : Regex) : Regex := .repeat r 0 (some 1)

def star (r : Regex) : Regex := .repeat r 0 none

def plus (r : Regex) : Regex := .repeat r 1 none

def exactly (n : Nat) (r : Regex) : Regex := .repeat r n (some n)

def atLeast (n : Nat) (r : Regex) : Regex := .repeat r n none

def digit : Regex := .set [.decimal]

def space : Regex := .set [.space]

def notSpace : Regex := .set [.notSpace]

def spaces : Regex := star space

def gap : Regex := plus space

/-- `[A-Za-z0-9]` and the characters of `more`. -/
def alnum (more : List Char) : Regex :=
  .set (([.range 'A' 'Z', .range 'a' 'z', .range '0' '9'] : List CharClass) ++
    more.map fun c => CharClass.range c c)

/-- The same without regard to case. -/
def alnumAnyCase (more : List Char) : Regex :=
  .set (([.folded 'a' 'z', .range '0' '9'] : List CharClass) ++
    more.map fun c => CharClass.range c c)

def upperAlnum : Regex := .set [.range '0' '9', .range 'A' 'Z']

def separator (more : List Char) : Regex :=
  opt (.set (.space :: more.map fun c => .range c c))

def underscoreOrGap : Regex := separator ['_', '-']

def assignment : Regex := seq [spaces, .set [.range ':' ':', .range '=' '='], spaces, plus notSpace]

def word (r : Regex) : Regex := seq [.boundary, r, .boundary]

def token (start : List Char) (r : Regex) : Regex := word (seq [text start, r])

def defaultPatterns : List SensitivePattern := [
  ⟨.pii, word (seq [exactly 3 digit, char '-', exactly 2 digit, char '-', exactly 4 digit]),
    "US Social Security Number (XXX-XX-XXXX)"⟩,
  ⟨.pii, word (seq [exactly 4 digit, separator ['-'], exactly 4 digit, separator ['-'],
      exactly 4 digit, separator ['-'], exactly 4 digit]),
    "credit card number (16 digits)"⟩,
  ⟨.pii, word (seq [exactly 3 digit, separator ['.', '-'], exactly 3 digit, separator ['.', '-'],
      exactly 4 digit]),
    "US phone number (XXX-XXX-XXXX)"⟩,
  ⟨.pii, seq [char '(', exactly 3 digit, char ')', spaces, exactly 3 digit,
      separator ['.', '-'], exactly 4 digit],
    "US phone number with parens ((XXX) XXX-XXXX)"⟩,
  ⟨.pii, word (seq [plus (alnum ['.', '_', '%', '+', '-']), char '@', plus (alnum ['.', '-']),
      char '.', atLeast 2 (.set [.range 'A' 'Z', .range '|' '|', .range 'a' 'z'])]),
    "email address"⟩,
  ⟨.credential, seq [text ['s', 'k', '-', 'a', 'n', 't', '-'], atLeast 20 (alnum ['_', '-'])],
    "Anthropic API key (sk-ant-)"⟩,
  ⟨.credential, seq [text ['s', 'k', '-'], opt (text ['p', 'r', 'o', 'j', '-']),
      atLeast 32 (alnum ['_', '-'])],
    "OpenAI API key (sk- / sk-proj-)"⟩,
  ⟨.credential, token ['o', 'r', 'g', '-'] (exactly 24 (alnum [])),
    "OpenAI organization key (org-)"⟩,
  ⟨.credential, token ['A', 'I', 'z', 'a'] (exactly 35 (alnum ['-', '_'])),
    "Google AI Studio API key"⟩,
  ⟨.credential, token ['g', 'h', 'p', '_'] (exactly 36 (alnum [])),
    "GitHub classic personal access token (ghp_)"⟩,
  ⟨.credential, token ['g', 'h', 'o', '_'] (exactly 36 (alnum [])),
    "GitHub OAuth access token (gho_)"⟩,
  ⟨.credential, token ['g', 'h', 's', '_'] (exactly 36 (alnum [])),
    "GitHub server-to-server token (ghs_)"⟩,
  ⟨.credential, token ['g', 'i', 't', 'h', 'u', 'b', '_', 'p', 'a', 't', '_']
      (exactly 82 (alnum ['_'])),
    "GitHub fine-grained personal access token (github_pat_)"⟩,
  ⟨.credential, token ['n', 'p', 'm', '_'] (exactly 36 (alnum [])),
    "npm token"⟩,
  ⟨.credential, token ['A', 'K', 'I', 'A'] (exactly 16 upperAlnum),
    "AWS access key ID (AKIA)"⟩,
  ⟨.credential, token ['A', 'G', 'E', '-', 'S', 'E', 'C', 'R', 'E', 'T', '-', 'K', 'E', 'Y', '-',
      '1'] (exactly 58 upperAlnum),
    "age secret key"⟩,
  ⟨.credential, seq [text ['x', 'o', 'x'],
      .set [.range 'b' 'b', .range 'p' 'p', .range 'a' 'a', .range 'r' 'r', .range 's' 's'],
      char '-', plus (seq [plus digit, char '-']), plus (alnum [])],
    "Slack token (xoxb/xoxp/xoxa/xoxr/xoxs)"⟩,
  ⟨.credential, seq [oneOf [
      seq [anyCase ['a', 'p', 'i'], underscoreOrGap, anyCase ['k', 'e', 'y']],
      seq [anyCase ['a', 'p', 'i'], underscoreOrGap, anyCase ['t', 'o', 'k', 'e', 'n']],
      seq [anyCase ['a', 'u', 't', 'h'], underscoreOrGap, anyCase ['t', 'o', 'k', 'e', 'n']]],
      assignment],
    "API key or token assignment"⟩,
  ⟨.credential, seq [oneOf [anyCase ['p', 'a', 's', 's', 'w', 'o', 'r', 'd'],
      anyCase ['p', 'a', 's', 's', 'w', 'd'], anyCase ['s', 'e', 'c', 'r', 'e', 't']], assignment],
    "password or secret assignment"⟩,
  ⟨.credential, seq [anyCase ['b', 'e', 'a', 'r', 'e', 'r'], gap,
      atLeast 20 (alnumAnyCase ['.', '_', '~', '+', '/', '=', '-'])],
    "bearer token"⟩,
  ⟨.credential, seq [oneOf [anyCase ['s', 'k'], anyCase ['p', 'k']],
      .set [.range '-' '-', .range '_' '_'], atLeast 20 (alnumAnyCase [])],
    "API secret/public key (sk-/pk- prefix)"⟩,
  ⟨.credential, seq [text ['-', '-', '-', '-', '-', 'B', 'E', 'G', 'I', 'N', ' '],
      opt (oneOf [text ['R', 'S', 'A', ' '], text ['E', 'C', ' '], text ['D', 'S', 'A', ' '],
        text ['O', 'P', 'E', 'N', 'S', 'S', 'H', ' '], text ['P', 'G', 'P', ' '],
        text ['E', 'N', 'C', 'R', 'Y', 'P', 'T', 'E', 'D', ' ']]),
      text ['P', 'R', 'I', 'V', 'A', 'T', 'E', ' ', 'K', 'E', 'Y', '-', '-', '-', '-', '-']],
    "PEM-encoded private key"⟩,
  ⟨.promptInjection, seq [anyCase ['i', 'g', 'n', 'o', 'r', 'e'], gap,
      opt (seq [anyCase ['a', 'l', 'l'], gap]),
      anyCase ['p', 'r', 'e', 'v', 'i', 'o', 'u', 's'], gap,
      anyCase ['i', 'n', 's', 't', 'r', 'u', 'c', 't', 'i', 'o', 'n'], opt (anyCase ['s'])],
    "prompt injection: ignore previous instructions"⟩,
  ⟨.promptInjection, seq [anyCase ['y', 'o', 'u'], gap, anyCase ['a', 'r', 'e'], gap,
      anyCase ['n', 'o', 'w'], gap, opt (seq [anyCase ['i', 'n'], gap]),
      anyCase ['d', 'e', 'v', 'e', 'l', 'o', 'p', 'e', 'r'], gap, anyCase ['m', 'o', 'd', 'e']],
    "prompt injection: developer mode claim"⟩,
  ⟨.promptInjection, seq [anyCase ['s', 'y', 's', 't', 'e', 'm'], gap,
      anyCase ['o', 'v', 'e', 'r', 'r', 'i', 'd', 'e']],
    "prompt injection: system override"⟩,
  ⟨.promptInjection, seq [anyCase ['r', 'e', 'v', 'e', 'a', 'l'], gap,
      opt (seq [anyCase ['y', 'o', 'u', 'r'], gap]),
      opt (seq [anyCase ['s', 'y', 's', 't', 'e', 'm'], gap]),
      anyCase ['p', 'r', 'o', 'm', 'p', 't']],
    "prompt injection: reveal prompt"⟩,
  ⟨.promptInjection, seq [anyCase ['d', 'i', 's', 'r', 'e', 'g', 'a', 'r', 'd'], gap,
      opt (seq [anyCase ['a', 'l', 'l'], gap]),
      oneOf [anyCase ['p', 'r', 'i', 'o', 'r'], anyCase ['p', 'r', 'e', 'v', 'i', 'o', 'u', 's'],
        anyCase ['a', 'b', 'o', 'v', 'e'], anyCase ['y', 'o', 'u', 'r']], gap],
    "prompt injection: disregard prior/your context"⟩,
  ⟨.promptInjection, seq [anyCase ['b', 'y', 'p', 'a', 's', 's'], gap,
      opt (seq [anyCase ['y', 'o', 'u', 'r'], gap]),
      oneOf [anyCase ['s', 'a', 'f', 'e', 't', 'y'],
        anyCase ['g', 'u', 'i', 'd', 'e', 'l', 'i', 'n', 'e', 's'],
        anyCase ['g', 'u', 'a', 'r', 'd', 'r', 'a', 'i', 'l', 's'],
        anyCase ['r', 'u', 'l', 'e', 's']]],
    "prompt injection: bypass safety/guidelines"⟩,
  ⟨.promptInjection, seq [anyCase ['y', 'o', 'u'], gap, anyCase ['a', 'r', 'e'], gap,
      opt (seq [anyCase ['n', 'o', 'w'], gap]), anyCase ['d', 'a', 'n'], .boundary],
    "prompt injection: DAN (Do Anything Now) jailbreak"⟩,
  ⟨.promptInjection, oneOf [
      seq [text ['<', '<'], spaces, anyCase ['s', 'y', 's', 't', 'e', 'm'], spaces,
        text ['>', '>']],
      seq [text ['<', '<'], spaces, opt (char '/'), spaces,
        anyCase ['s', 'y', 's', 't', 'e', 'm'], spaces, text ['>', '>']]],
    "prompt injection: fabricated <<SYSTEM>> delimiter"⟩,
  ⟨.promptInjection, seq [char '<', opt (char '/'), spaces,
      oneOf [anyCase ['s', 'y', 's', 't', 'e', 'm'],
        anyCase ['u', 's', 'e', 'r', '_', 'i', 'n', 'p', 'u', 't'], anyCase ['u', 's', 'e', 'r'],
        anyCase ['a', 's', 's', 'i', 's', 't', 'a', 'n', 't']], spaces, char '>'],
    "prompt injection: fabricated XML-style role tag"⟩,
  ⟨.promptInjection, seq [anyCase ['a', 'l', 'l'], gap,
      anyCase ['p', 'r', 'e', 'v', 'i', 'o', 'u', 's'], gap,
      anyCase ['r', 'u', 'l', 'e', 's'], gap, anyCase ['a', 'r', 'e'], gap,
      anyCase ['d', 'i', 's', 'a', 'b', 'l', 'e', 'd']],
    "prompt injection: rules-disabled claim"⟩,
  ⟨.suspiciousEncoding, seq [atLeast 40 (alnum ['+', '/']),
      .repeat (char '=') 0 (some 2)],
    "possible base64-encoded blob (40+ chars)"⟩]

def maxContentLength : Nat := 10000

/-- What a redacted match becomes. -/
def replacement : List Char := ['[', 'R', 'E', 'D', 'A', 'C', 'T', 'E', 'D', ']']

/-- What marks a text that was cut. -/
def marker : List Char :=
  ['.', '.', '.', ' ', '[', 'T', 'R', 'U', 'N', 'C', 'A', 'T', 'E', 'D', ']']

/-- A match of the pattern takes something, does not start with the bracket of a replacement, and does
not start in the marker at the end of a text. -/
def StandsApart (p : SensitivePattern) : Bool :=
  decide (0 < p.regex.minLength) && !p.regex.canStart asciiTables '[' &&
    marker.tails.all fun rest =>
      match rest with
      | [] => true
      | c :: more => !(p.regex.canStart asciiTables c &&
          decide (p.regex.minLength ≤ (c :: more).length) &&
          (!p.regex.needs '@' || (c :: more).contains '@'))

theorem defaultPatterns_standApart : defaultPatterns.all StandsApart = true := by
  decide +kernel

end Springtale.Ai.Sanitize
