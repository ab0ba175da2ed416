import Consent.Text.Split

/-! Public suffixes: the names below which sites are registered. -/

namespace Consent.Host

open Text

/-- A rule on the last labels of a host, written from the last label on. -/
inductive SuffixRule where
  /-- These labels are a suffix. -/
  | exactly (labels : List String)
  /-- Any label before these makes a suffix. -/
  | below (labels : List String)
  /-- These labels are no suffix, although a `below` rule covers them. -/
  | except (labels : List String)
  deriving DecidableEq, Repr

def suffixRules : List SuffixRule := [
  .exactly ["com"], .exactly ["org"], .exactly ["net"], .exactly ["ca"], .exactly ["ca", "co"],
  .exactly ["io"], .exactly ["io", "github"], .exactly ["uk"], .exactly ["uk", "co"],
  .exactly ["uk", "gov"], .exactly ["jp"], .exactly ["jp", "co"], .below ["jp", "kawasaki"],
  .except ["jp", "kawasaki", "city"], .below ["ck"], .except ["ck", "www"], .exactly ["de"],
  .exactly ["au"], .exactly ["au", "com"], .exactly ["fr"], .exactly ["com", "appspot"],
  .exactly ["com", "amazonaws", "s3"], .exactly ["xn--p1ai"]]

/-- The rules in force. A host that none of them covers has its last label as suffix. -/
class SuffixList where
  rules : List SuffixRule

instance : SuffixList := ⟨suffixRules⟩

/-- Whether the labels, last first, begin with those of a rule. -/
def covers (rule : List String) (labels : List (List Char)) : Bool :=
  (rule.map String.toList).isPrefixOf labels

def SuffixRule.length? (labels : List (List Char)) : SuffixRule → Option Nat
  | .exactly rule => if covers rule labels then some rule.length else none
  | .below rule => if covers rule labels && rule.length < labels.length then some (rule.length + 1) else none
  | .except _ => none

def SuffixRule.exception? (labels : List (List Char)) : SuffixRule → Option Nat
  | .except rule => if covers rule labels then some (rule.length - 1) else none
  | _ => none

/-- How many of the labels, last first, form the public suffix: exceptions win, then the longest
rule, and without any rule it is the last label. -/
def suffixLength [SuffixList] (labels : List (List Char)) : Nat :=
  match SuffixList.rules.findSome? (SuffixRule.exception? labels) with
  | some n => n
  | none => (SuffixList.rules.filterMap (SuffixRule.length? labels)).foldl max 1

def labels (host : List Char) : List (List Char) := splitOn '.' host

def lastLabels (n : Nat) (host : List Char) : List Char :=
  let ls := labels host
  joinWith '.' (ls.drop (ls.length - n))

def publicSuffix [SuffixList] (host : List Char) : List Char :=
  lastLabels (suffixLength (labels host).reverse) host

end Consent.Host
