import SampleTypes.Filter.Grammar

/-!
# Definitions

A definition gives a filter a name and parameters. `definitions` holds those that need not be written
down to be called; every one of them may call those in front of it, and itself.
-/

namespace SampleTypes.Filter

structure Definition where
  name : String
  parameters : List Parameter
  body : Filter

/-- The definitions that a filter begins with. -/
def leading : Filter → List Definition
  | .define name parameters body rest => ⟨name, parameters, body⟩ :: leading rest
  | _ => []

def prelude : List String := [
  "def null: [][0];",
  "def true: 0 == 0;",
  "def false: 0 != 0;",
  "def nan: 0 / 0;",
  "def infinite: 1 / 0;",
  "def not: if . then false else true end;",
  "def error(f): reduce f as $x (.; $x | error);",
  "def select(f): if f then . else empty end;",
  "def values: select(. != null);",
  "def nulls: select(. == null);",
  "def booleans: select(type == \"boolean\");",
  "def numbers: select(type == \"number\");",
  "def strings: select(type == \"string\");",
  "def arrays: select(type == \"array\");",
  "def objects: select(type == \"object\");",
  "def iterables: select(. >= []);",
  "def scalars: select(. < []);",
  "def map(f): [.[] | f];",
  "def map_values(f): .[] |= f;",
  "def del(f): f |= empty;",
  "def recurse: ..;",
  "def recurse(f): def rec: ., (f | rec); rec;",
  "def while(p; f): def rec: if p then ., (f | rec) else empty end; rec;",
  "def until(p; f): def rec: if p then . else f | rec end; rec;",
  "def repeat(f): def rec: ., (f | rec); rec;",
  "def range(n): range(0; n; 1);",
  "def range(m; n): range(m; n; 1);",
  "def first: .[0];",
  "def last: .[-1];",
  "def sort: sort_by(.);",
  "def add(f): reduce f as $x (null; . + $x);",
  "def add: add(.[]);",
  "def isempty(f): first((f | false), true);",
  "def any(f; p): isempty(f | p or empty) | not;",
  "def any(p): any(.[]; p);",
  "def any: any(.);",
  "def all(f; p): isempty(f | p and empty);",
  "def all(p): all(.[]; p);",
  "def all: all(.);",
  "def in(f): . as $x | f | has($x);",
  "def to_entries: [keys_unsorted[] as $key | .[$key] as $value | \x7b$key, $value\x7d];",
  "def from_entries: map(\x7b(.key): .value\x7d) | add + \x7b\x7d;",
  "def with_entries(f): to_entries | map(f) | from_entries;",
  "def @text: tostring;",
  "def @json: tojson;",
  "."]

/-- The filters that are defined by others. -/
def definitions : List Definition :=
  ((read? (String.join prelude)).map leading).getD []

end SampleTypes.Filter
