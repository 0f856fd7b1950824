/-
  Descriptions for messages with a number in them, and for durations.

  Every sample is a description that compiles.
-/
namespace Spellout.Samples

/-- The result of a search. -/
def message1 : String :=
"x.0: The search found <<.;
no files; one file; two files; three files; four files; five files;
    six files; seven files; eight files; nine files;
=#,##0= files;
"

/-- The free space on a disk. -/
def message2 : String :=
"x.0: There << free space on the disk.;
0: is no;
is one byte of;
are =0= bytes of;
1024/1024: is <0<K of;
1,048,576/1024: is 1 Mb of;
2,097,152/1024: are <0< Mb of;
"

/-- Durations given in seconds, in words and in digits. -/
def durationInSeconds : String :=
"%with-words:
    0 seconds; 1 second; =0= seconds;
    60/60: <%%min<[, >>];
    3600/60: <%%hr<[, >>>];
%%min:
    0 minutes; 1 minute; =0= minutes;
%%hr:
    0 hours; 1 hour; =0= hours;
%in-numerals:
    =0= sec.;
    60: =%%min-sec=;
    3600: =%%hr-min-sec=;
%%min-sec:
    0: :=00=;
    60/60: <0<>>;
%%hr-min-sec:
    0: :=00=;
    60/60: <00<>>;
    3600/60: <#,##0<:>>>;
%%lenient-parse:
    & : = . = ' ' = -;
"

/-- Durations given in hours, in words and in digits. -/
def durationInHours : String :=
"%with-words:
    x.0: <<[, >%%min-sec>];
    0 hours; 1 hour; =#,##0= hours;
%%min-sec:
    3600: =%%min-sec-implementation=;
%%min-sec-implementation:
    0 seconds; 1 second; =0= seconds;
    60/60: 1 minute[, >>];
    120/60: <0< minutes[, >>];
%in-numerals:
    x.0: <#,##0<:00;
    x.x: <#,##0<:>%%min-sec2>;
%%min-sec2:
    60: <00<;
    3600: <%%min-sec2-implementation<;
%%min-sec2-implementation:
    0: 00:=00=;
    60: =%%min-sec3=;
%%min-sec3:
    0: :=00=;
    60/60: <00<>>;
%%lenient-parse:
    & : = . = ' ' = -;
"

end Spellout.Samples
