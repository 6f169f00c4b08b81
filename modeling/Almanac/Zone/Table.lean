import Almanac.Zone.Basic

/-!
# The zones this library knows

The offset changes of each zone are written as spans of years: a change that happened once, or
changes that came back every year on the first given weekday on or after a day of a month. A span
unfolds into plain transitions (`ZoneSpan.transitions`), in the order written.

Clock times are UTC and are written `hhmmss` as one number, so `20000` is two o'clock.
-/

namespace Almanac

/-! ## 1. Spans -/

/-- A change that falls on the first such weekday on or after a day of a month. -/
structure YearlyChange where
  weekday : Weekday
  day : Nat
  month : Nat
  clock : Nat
  offset : Int

/-- Offset changes over some years. -/
inductive ZoneSpan where
  /-- One change on a date. -/
  | once (year : Int) (month day clock : Nat) (offset : Int)
  /-- The same changes in each year from `first` to `last`. -/
  | yearly (first last : Nat) (changes : List YearlyChange)

namespace ZoneSpan

/-- The day number of a date given by its fields. -/
def dayNumber (year : Int) (month day : Nat) : Int :=
  yearStart year + (daysBeforeMonth year month + (day - 1) : Nat)

/-- The stamp of a clock time on a day. -/
def stamp (day : Int) (clock : Nat) : Int :=
  day * 86400 + (clock / 10000 * 3600 + clock / 100 % 100 * 60 + clock % 100 : Nat)

/-- The first day with a given weekday on or after a day; day 0 is a Saturday. -/
def onOrAfter (day : Int) (weekday : Weekday) : Int :=
  day + (weekday.index - (day + 5)) % 7

/-- The transition of a yearly change in a year. -/
def transitionIn (year : Int) (change : YearlyChange) : Transition :=
  ⟨stamp (onOrAfter (dayNumber year change.month change.day) change.weekday) change.clock,
    change.offset⟩

/-- The transitions of a span. -/
def transitions : ZoneSpan → List Transition
  | once year month day clock offset => [⟨stamp (dayNumber year month day) clock, offset⟩]
  | yearly first last changes =>
    (List.range (last + 1 - first)).flatMap fun i => changes.map (transitionIn (first + i : Nat))

end ZoneSpan

/-- The zone with an offset at first and the changes of some spans. -/
def Zone.ofSpans (name : String) (initial : Int) (spans : List ZoneSpan) : Zone :=
  ⟨name, initial, spans.flatMap ZoneSpan.transitions⟩

/-! ## 2. The data -/

namespace ZoneTable

/-- The zone `America/New_York`. -/
def newYork : Zone :=
  Zone.ofSpans "America/New_York" (-17762)
    [.once 1883 11 18 170000 (-18000),
    .yearly 1918 1920 [⟨.sunday, 28, 3, 70000, -14400⟩, ⟨.sunday, 26, 10, 60000, -18000⟩],
    .yearly 1921 1941 [⟨.sunday, 24, 4, 70000, -14400⟩, ⟨.sunday, 24, 9, 60000, -18000⟩],
    .once 1942 2 9 70000 (-14400), .once 1945 9 30 60000 (-18000),
    .yearly 1946 1954 [⟨.sunday, 24, 4, 70000, -14400⟩, ⟨.sunday, 24, 9, 60000, -18000⟩],
    .yearly 1955 1973 [⟨.sunday, 24, 4, 70000, -14400⟩, ⟨.sunday, 25, 10, 60000, -18000⟩],
    .once 1974 1 6 70000 (-14400), .once 1974 10 27 60000 (-18000),
    .once 1975 2 23 70000 (-14400), .once 1975 10 26 60000 (-18000),
    .yearly 1976 1986 [⟨.sunday, 24, 4, 70000, -14400⟩, ⟨.sunday, 25, 10, 60000, -18000⟩],
    .yearly 1987 2006 [⟨.sunday, 1, 4, 70000, -14400⟩, ⟨.sunday, 25, 10, 60000, -18000⟩],
    .yearly 2007 2099 [⟨.sunday, 8, 3, 70000, -14400⟩, ⟨.sunday, 1, 11, 60000, -18000⟩]]

/-- The zone `Europe/London`. -/
def london : Zone :=
  Zone.ofSpans "Europe/London" (-75)
    [.once 1847 12 1 115 0, .once 1916 5 21 20000 3600, .once 1916 10 1 20000 0,
    .once 1917 4 8 20000 3600, .once 1917 9 17 20000 0, .once 1918 3 24 20000 3600,
    .once 1918 9 30 20000 0, .once 1919 3 30 20000 3600, .once 1919 9 29 20000 0,
    .once 1920 3 28 20000 3600, .once 1920 10 25 20000 0, .once 1921 4 3 20000 3600,
    .once 1921 10 3 20000 0, .once 1922 3 26 20000 3600, .once 1922 10 8 20000 0,
    .once 1923 4 22 20000 3600, .once 1923 9 16 20000 0, .once 1924 4 13 20000 3600,
    .once 1924 9 21 20000 0, .once 1925 4 19 20000 3600, .once 1925 10 4 20000 0,
    .once 1926 4 18 20000 3600, .once 1926 10 3 20000 0, .once 1927 4 10 20000 3600,
    .once 1927 10 2 20000 0, .once 1928 4 22 20000 3600, .once 1928 10 7 20000 0,
    .once 1929 4 21 20000 3600, .once 1929 10 6 20000 0,
    .yearly 1930 1932 [⟨.sunday, 13, 4, 20000, 3600⟩, ⟨.sunday, 2, 10, 20000, 0⟩],
    .once 1933 4 9 20000 3600, .once 1933 10 8 20000 0, .once 1934 4 22 20000 3600,
    .once 1934 10 7 20000 0,
    .yearly 1935 1937 [⟨.sunday, 14, 4, 20000, 3600⟩, ⟨.sunday, 3, 10, 20000, 0⟩],
    .once 1938 4 10 20000 3600, .once 1938 10 2 20000 0, .once 1939 4 16 20000 3600,
    .once 1939 11 19 20000 0, .once 1940 2 25 20000 3600, .once 1941 5 4 10000 7200,
    .once 1941 8 10 10000 3600, .once 1942 4 5 10000 7200, .once 1942 8 9 10000 3600,
    .once 1943 4 4 10000 7200, .once 1943 8 15 10000 3600, .once 1944 4 2 10000 7200,
    .once 1944 9 17 10000 3600, .once 1945 4 2 10000 7200, .once 1945 7 15 10000 3600,
    .once 1945 10 7 20000 0, .once 1946 4 14 20000 3600, .once 1946 10 6 20000 0,
    .once 1947 3 16 20000 3600, .once 1947 4 13 10000 7200, .once 1947 8 10 10000 3600,
    .once 1947 11 2 20000 0, .once 1948 3 14 20000 3600, .once 1948 10 31 20000 0,
    .once 1949 4 3 20000 3600, .once 1949 10 30 20000 0,
    .yearly 1950 1952 [⟨.sunday, 15, 4, 20000, 3600⟩, ⟨.sunday, 21, 10, 20000, 0⟩],
    .once 1953 4 19 20000 3600, .once 1953 10 4 20000 0, .once 1954 4 11 20000 3600,
    .once 1954 10 3 20000 0, .once 1955 4 17 20000 3600, .once 1955 10 2 20000 0,
    .once 1956 4 22 20000 3600, .once 1956 10 7 20000 0,
    .yearly 1957 1959 [⟨.sunday, 14, 4, 20000, 3600⟩, ⟨.sunday, 4, 10, 20000, 0⟩],
    .once 1960 4 10 20000 3600, .once 1960 10 2 20000 0,
    .yearly 1961 1963 [⟨.sunday, 25, 3, 20000, 3600⟩, ⟨.sunday, 27, 10, 20000, 0⟩],
    .yearly 1964 1967 [⟨.sunday, 19, 3, 20000, 3600⟩, ⟨.sunday, 23, 10, 20000, 0⟩],
    .once 1968 2 18 20000 3600, .once 1971 10 31 20000 0,
    .yearly 1972 1980 [⟨.sunday, 16, 3, 20000, 3600⟩, ⟨.sunday, 23, 10, 20000, 0⟩],
    .yearly 1981 1994 [⟨.sunday, 25, 3, 10000, 3600⟩, ⟨.sunday, 23, 10, 10000, 0⟩],
    .yearly 1995 1998 [⟨.sunday, 26, 3, 10000, 3600⟩, ⟨.sunday, 22, 10, 10000, 0⟩],
    .yearly 1999 2099 [⟨.sunday, 25, 3, 10000, 3600⟩, ⟨.sunday, 25, 10, 10000, 0⟩]]

/-- The zone `Europe/Paris`. -/
def paris : Zone :=
  Zone.ofSpans "Europe/Paris" (561)
    [.once 1911 3 10 235039 0, .once 1916 6 14 230000 3600, .once 1916 10 1 230000 0,
    .once 1917 3 24 230000 3600, .once 1917 10 7 230000 0, .once 1918 3 9 230000 3600,
    .once 1918 10 6 230000 0, .once 1919 3 1 230000 3600, .once 1919 10 5 230000 0,
    .once 1920 2 14 230000 3600, .once 1920 10 23 230000 0, .once 1921 3 14 230000 3600,
    .once 1921 10 25 230000 0, .once 1922 3 25 230000 3600, .once 1922 10 7 230000 0,
    .once 1923 5 26 230000 3600, .once 1923 10 6 230000 0, .once 1924 3 29 230000 3600,
    .once 1924 10 4 230000 0, .once 1925 4 4 230000 3600, .once 1925 10 3 230000 0,
    .once 1926 4 17 230000 3600, .once 1926 10 2 230000 0, .once 1927 4 9 230000 3600,
    .once 1927 10 1 230000 0, .once 1928 4 14 230000 3600, .once 1928 10 6 230000 0,
    .once 1929 4 20 230000 3600, .once 1929 10 5 230000 0, .once 1930 4 12 230000 3600,
    .once 1930 10 4 230000 0, .once 1931 4 18 230000 3600, .once 1931 10 3 230000 0,
    .once 1932 4 2 230000 3600, .once 1932 10 1 230000 0, .once 1933 3 25 230000 3600,
    .once 1933 10 7 230000 0, .once 1934 4 7 230000 3600, .once 1934 10 6 230000 0,
    .once 1935 3 30 230000 3600, .once 1935 10 5 230000 0, .once 1936 4 18 230000 3600,
    .once 1936 10 3 230000 0, .once 1937 4 3 230000 3600, .once 1937 10 2 230000 0,
    .once 1938 3 26 230000 3600, .once 1938 10 1 230000 0, .once 1939 4 15 230000 3600,
    .once 1939 11 18 230000 0, .once 1940 2 25 20000 3600, .once 1940 6 14 220000 7200,
    .once 1942 11 2 10000 3600, .once 1943 3 29 10000 7200, .once 1943 10 4 10000 3600,
    .once 1944 4 3 10000 7200, .once 1944 10 7 230000 3600, .once 1945 4 2 10000 7200,
    .once 1945 9 16 10000 3600, .once 1976 3 28 0 7200, .once 1976 9 25 230000 3600,
    .once 1977 4 3 10000 7200, .once 1977 9 25 10000 3600, .once 1978 4 2 10000 7200,
    .once 1978 10 1 10000 3600, .once 1979 4 1 10000 7200, .once 1979 9 30 10000 3600,
    .once 1980 4 6 10000 7200, .once 1980 9 28 10000 3600,
    .yearly 1981 1995 [⟨.sunday, 25, 3, 10000, 7200⟩, ⟨.sunday, 24, 9, 10000, 3600⟩],
    .yearly 1996 2099 [⟨.sunday, 25, 3, 10000, 7200⟩, ⟨.sunday, 25, 10, 10000, 3600⟩]]

/-- The zone `Europe/Dublin`. -/
def dublin : Zone :=
  Zone.ofSpans "Europe/Dublin" (-1521)
    [.once 1916 5 21 22521 2079, .once 1916 10 1 22521 0, .once 1917 4 8 20000 3600,
    .once 1917 9 17 20000 0, .once 1918 3 24 20000 3600, .once 1918 9 30 20000 0,
    .once 1919 3 30 20000 3600, .once 1919 9 29 20000 0, .once 1920 3 28 20000 3600,
    .once 1920 10 25 20000 0, .once 1921 4 3 20000 3600, .once 1921 10 3 20000 0,
    .once 1922 3 26 20000 3600, .once 1922 10 8 20000 0, .once 1923 4 22 20000 3600,
    .once 1923 9 16 20000 0, .once 1924 4 13 20000 3600, .once 1924 9 21 20000 0,
    .once 1925 4 19 20000 3600, .once 1925 10 4 20000 0, .once 1926 4 18 20000 3600,
    .once 1926 10 3 20000 0, .once 1927 4 10 20000 3600, .once 1927 10 2 20000 0,
    .once 1928 4 22 20000 3600, .once 1928 10 7 20000 0, .once 1929 4 21 20000 3600,
    .once 1929 10 6 20000 0,
    .yearly 1930 1932 [⟨.sunday, 13, 4, 20000, 3600⟩, ⟨.sunday, 2, 10, 20000, 0⟩],
    .once 1933 4 9 20000 3600, .once 1933 10 8 20000 0, .once 1934 4 22 20000 3600,
    .once 1934 10 7 20000 0,
    .yearly 1935 1937 [⟨.sunday, 14, 4, 20000, 3600⟩, ⟨.sunday, 3, 10, 20000, 0⟩],
    .once 1938 4 10 20000 3600, .once 1938 10 2 20000 0, .once 1939 4 16 20000 3600,
    .once 1939 11 19 20000 0, .once 1940 2 25 20000 3600, .once 1946 10 6 20000 0,
    .once 1947 3 16 20000 3600, .once 1947 11 2 20000 0, .once 1948 4 18 20000 3600,
    .once 1948 10 31 20000 0, .once 1949 4 3 20000 3600, .once 1949 10 30 20000 0,
    .yearly 1950 1952 [⟨.sunday, 15, 4, 20000, 3600⟩, ⟨.sunday, 21, 10, 20000, 0⟩],
    .once 1953 4 19 20000 3600, .once 1953 10 4 20000 0, .once 1954 4 11 20000 3600,
    .once 1954 10 3 20000 0, .once 1955 4 17 20000 3600, .once 1955 10 2 20000 0,
    .once 1956 4 22 20000 3600, .once 1956 10 7 20000 0,
    .yearly 1957 1959 [⟨.sunday, 14, 4, 20000, 3600⟩, ⟨.sunday, 4, 10, 20000, 0⟩],
    .once 1960 4 10 20000 3600, .once 1960 10 2 20000 0,
    .yearly 1961 1963 [⟨.sunday, 25, 3, 20000, 3600⟩, ⟨.sunday, 27, 10, 20000, 0⟩],
    .yearly 1964 1967 [⟨.sunday, 19, 3, 20000, 3600⟩, ⟨.sunday, 23, 10, 20000, 0⟩],
    .once 1968 2 18 20000 3600, .once 1971 10 31 20000 0,
    .yearly 1972 1980 [⟨.sunday, 16, 3, 20000, 3600⟩, ⟨.sunday, 23, 10, 20000, 0⟩],
    .yearly 1981 1994 [⟨.sunday, 25, 3, 10000, 3600⟩, ⟨.sunday, 23, 10, 10000, 0⟩],
    .yearly 1995 1998 [⟨.sunday, 26, 3, 10000, 3600⟩, ⟨.sunday, 22, 10, 10000, 0⟩],
    .yearly 1999 2099 [⟨.sunday, 25, 3, 10000, 3600⟩, ⟨.sunday, 25, 10, 10000, 0⟩]]

/-- The zone `Asia/Tokyo`. -/
def tokyo : Zone :=
  Zone.ofSpans "Asia/Tokyo" (33539)
    [.once 1887 12 31 150000 32400, .once 1948 5 1 150000 36000, .once 1948 9 11 150000 32400,
    .once 1949 4 2 150000 36000, .once 1949 9 10 150000 32400, .once 1950 5 6 150000 36000,
    .once 1950 9 9 150000 32400, .once 1951 5 5 150000 36000, .once 1951 9 8 150000 32400]

/-- The zone `Asia/Kolkata`. -/
def kolkata : Zone :=
  Zone.ofSpans "Asia/Kolkata" (21208)
    [.once 1854 6 27 180632 21200, .once 1869 12 31 180640 19270, .once 1905 12 31 183850 19800,
    .once 1941 9 30 183000 23400, .once 1942 5 14 173000 19800, .once 1942 8 31 183000 23400,
    .once 1945 10 14 173000 19800]

/-- The zone `Asia/Kathmandu`. -/
def kathmandu : Zone :=
  Zone.ofSpans "Asia/Kathmandu" (20476)
    [.once 1919 12 31 181844 19800, .once 1985 12 31 183000 20700]

/-- The zone `Australia/Sydney`. -/
def sydney : Zone :=
  Zone.ofSpans "Australia/Sydney" (36292)
    [.once 1895 1 31 135508 36000, .once 1916 12 31 160000 39600, .once 1917 3 24 160000 36000,
    .once 1941 12 31 160000 39600, .once 1942 3 28 160000 36000, .once 1942 9 26 160000 39600,
    .once 1943 3 27 160000 36000, .once 1943 10 2 160000 39600, .once 1944 3 25 160000 36000,
    .once 1971 10 30 160000 39600, .once 1972 2 26 160000 36000, .once 1972 10 28 160000 39600,
    .yearly 1973 1980 [⟨.saturday, 1, 3, 160000, 36000⟩, ⟨.saturday, 25, 10, 160000, 39600⟩],
    .once 1981 2 28 160000 36000, .once 1981 10 24 160000 39600, .once 1982 4 3 160000 36000,
    .once 1982 10 30 160000 39600,
    .yearly 1983 1985 [⟨.saturday, 2, 3, 160000, 36000⟩, ⟨.saturday, 26, 10, 160000, 39600⟩],
    .once 1986 3 15 160000 36000, .once 1986 10 18 160000 39600,
    .yearly 1987 1989 [⟨.saturday, 14, 3, 160000, 36000⟩, ⟨.saturday, 24, 10, 160000, 39600⟩],
    .once 1990 3 3 160000 36000, .once 1990 10 27 160000 39600, .once 1991 3 2 160000 36000,
    .once 1991 10 26 160000 39600, .once 1992 2 29 160000 36000, .once 1992 10 24 160000 39600,
    .yearly 1993 1995 [⟨.saturday, 4, 3, 160000, 36000⟩, ⟨.saturday, 28, 10, 160000, 39600⟩],
    .yearly 1996 1999 [⟨.saturday, 27, 3, 160000, 36000⟩, ⟨.saturday, 24, 10, 160000, 39600⟩],
    .once 2000 3 25 160000 36000, .once 2000 8 26 160000 39600,
    .yearly 2001 2005 [⟨.saturday, 24, 3, 160000, 36000⟩, ⟨.saturday, 25, 10, 160000, 39600⟩],
    .once 2006 4 1 160000 36000, .once 2006 10 28 160000 39600, .once 2007 3 24 160000 36000,
    .once 2007 10 27 160000 39600,
    .yearly 2008 2011 [⟨.saturday, 2, 4, 160000, 36000⟩, ⟨.saturday, 1, 10, 160000, 39600⟩],
    .once 2012 3 31 160000 36000, .once 2012 10 6 160000 39600,
    .yearly 2013 2016 [⟨.saturday, 2, 4, 160000, 36000⟩, ⟨.saturday, 1, 10, 160000, 39600⟩],
    .once 2017 4 1 160000 36000, .once 2017 9 30 160000 39600, .once 2018 3 31 160000 36000,
    .once 2018 10 6 160000 39600,
    .yearly 2019 2022 [⟨.saturday, 2, 4, 160000, 36000⟩, ⟨.saturday, 1, 10, 160000, 39600⟩],
    .once 2023 4 1 160000 36000, .once 2023 9 30 160000 39600,
    .yearly 2024 2027 [⟨.saturday, 3, 4, 160000, 36000⟩, ⟨.saturday, 2, 10, 160000, 39600⟩],
    .once 2028 4 1 160000 36000, .once 2028 9 30 160000 39600, .once 2029 3 31 160000 36000,
    .once 2029 10 6 160000 39600,
    .yearly 2030 2033 [⟨.saturday, 2, 4, 160000, 36000⟩, ⟨.saturday, 1, 10, 160000, 39600⟩],
    .once 2034 4 1 160000 36000, .once 2034 9 30 160000 39600, .once 2035 3 31 160000 36000,
    .once 2035 10 6 160000 39600,
    .yearly 2036 2039 [⟨.saturday, 2, 4, 160000, 36000⟩, ⟨.saturday, 1, 10, 160000, 39600⟩],
    .once 2040 3 31 160000 36000, .once 2040 10 6 160000 39600,
    .yearly 2041 2044 [⟨.saturday, 2, 4, 160000, 36000⟩, ⟨.saturday, 1, 10, 160000, 39600⟩],
    .once 2045 4 1 160000 36000, .once 2045 9 30 160000 39600, .once 2046 3 31 160000 36000,
    .once 2046 10 6 160000 39600,
    .yearly 2047 2050 [⟨.saturday, 2, 4, 160000, 36000⟩, ⟨.saturday, 1, 10, 160000, 39600⟩],
    .once 2051 4 1 160000 36000, .once 2051 9 30 160000 39600,
    .yearly 2052 2055 [⟨.saturday, 3, 4, 160000, 36000⟩, ⟨.saturday, 2, 10, 160000, 39600⟩],
    .once 2056 4 1 160000 36000, .once 2056 9 30 160000 39600, .once 2057 3 31 160000 36000,
    .once 2057 10 6 160000 39600,
    .yearly 2058 2061 [⟨.saturday, 2, 4, 160000, 36000⟩, ⟨.saturday, 1, 10, 160000, 39600⟩],
    .once 2062 4 1 160000 36000, .once 2062 9 30 160000 39600, .once 2063 3 31 160000 36000,
    .once 2063 10 6 160000 39600,
    .yearly 2064 2067 [⟨.saturday, 2, 4, 160000, 36000⟩, ⟨.saturday, 1, 10, 160000, 39600⟩],
    .once 2068 3 31 160000 36000, .once 2068 10 6 160000 39600,
    .yearly 2069 2072 [⟨.saturday, 2, 4, 160000, 36000⟩, ⟨.saturday, 1, 10, 160000, 39600⟩],
    .once 2073 4 1 160000 36000, .once 2073 9 30 160000 39600, .once 2074 3 31 160000 36000,
    .once 2074 10 6 160000 39600,
    .yearly 2075 2078 [⟨.saturday, 2, 4, 160000, 36000⟩, ⟨.saturday, 1, 10, 160000, 39600⟩],
    .once 2079 4 1 160000 36000, .once 2079 9 30 160000 39600,
    .yearly 2080 2083 [⟨.saturday, 3, 4, 160000, 36000⟩, ⟨.saturday, 2, 10, 160000, 39600⟩],
    .once 2084 4 1 160000 36000, .once 2084 9 30 160000 39600, .once 2085 3 31 160000 36000,
    .once 2085 10 6 160000 39600,
    .yearly 2086 2089 [⟨.saturday, 2, 4, 160000, 36000⟩, ⟨.saturday, 1, 10, 160000, 39600⟩],
    .once 2090 4 1 160000 36000, .once 2090 9 30 160000 39600, .once 2091 3 31 160000 36000,
    .once 2091 10 6 160000 39600,
    .yearly 2092 2095 [⟨.saturday, 2, 4, 160000, 36000⟩, ⟨.saturday, 1, 10, 160000, 39600⟩],
    .once 2096 3 31 160000 36000, .once 2096 10 6 160000 39600,
    .yearly 2097 2099 [⟨.saturday, 4, 4, 160000, 36000⟩, ⟨.saturday, 3, 10, 160000, 39600⟩]]

/-- The zone `Australia/Lord_Howe`. -/
def lordHowe : Zone :=
  Zone.ofSpans "Australia/Lord_Howe" (38180)
    [.once 1895 1 31 132340 36000, .once 1981 2 28 140000 37800, .once 1981 10 24 153000 41400,
    .yearly 1982 1984 [⟨.saturday, 3, 3, 143000, 37800⟩, ⟨.saturday, 27, 10, 153000, 41400⟩],
    .once 1985 3 2 143000 37800, .once 1985 10 26 153000 39600, .once 1986 3 15 150000 37800,
    .once 1986 10 18 153000 39600,
    .yearly 1987 1989 [⟨.saturday, 14, 3, 150000, 37800⟩, ⟨.saturday, 24, 10, 153000, 39600⟩],
    .once 1990 3 3 150000 37800, .once 1990 10 27 153000 39600, .once 1991 3 2 150000 37800,
    .once 1991 10 26 153000 39600, .once 1992 2 29 150000 37800, .once 1992 10 24 153000 39600,
    .yearly 1993 1995 [⟨.saturday, 4, 3, 150000, 37800⟩, ⟨.saturday, 28, 10, 153000, 39600⟩],
    .yearly 1996 1999 [⟨.saturday, 27, 3, 150000, 37800⟩, ⟨.saturday, 24, 10, 153000, 39600⟩],
    .once 2000 3 25 150000 37800, .once 2000 8 26 153000 39600,
    .yearly 2001 2005 [⟨.saturday, 24, 3, 150000, 37800⟩, ⟨.saturday, 25, 10, 153000, 39600⟩],
    .once 2006 4 1 150000 37800, .once 2006 10 28 153000 39600, .once 2007 3 24 150000 37800,
    .once 2007 10 27 153000 39600,
    .yearly 2008 2011 [⟨.saturday, 2, 4, 150000, 37800⟩, ⟨.saturday, 1, 10, 153000, 39600⟩],
    .once 2012 3 31 150000 37800, .once 2012 10 6 153000 39600,
    .yearly 2013 2016 [⟨.saturday, 2, 4, 150000, 37800⟩, ⟨.saturday, 1, 10, 153000, 39600⟩],
    .once 2017 4 1 150000 37800, .once 2017 9 30 153000 39600, .once 2018 3 31 150000 37800,
    .once 2018 10 6 153000 39600,
    .yearly 2019 2022 [⟨.saturday, 2, 4, 150000, 37800⟩, ⟨.saturday, 1, 10, 153000, 39600⟩],
    .once 2023 4 1 150000 37800, .once 2023 9 30 153000 39600,
    .yearly 2024 2027 [⟨.saturday, 3, 4, 150000, 37800⟩, ⟨.saturday, 2, 10, 153000, 39600⟩],
    .once 2028 4 1 150000 37800, .once 2028 9 30 153000 39600, .once 2029 3 31 150000 37800,
    .once 2029 10 6 153000 39600,
    .yearly 2030 2033 [⟨.saturday, 2, 4, 150000, 37800⟩, ⟨.saturday, 1, 10, 153000, 39600⟩],
    .once 2034 4 1 150000 37800, .once 2034 9 30 153000 39600, .once 2035 3 31 150000 37800,
    .once 2035 10 6 153000 39600,
    .yearly 2036 2039 [⟨.saturday, 2, 4, 150000, 37800⟩, ⟨.saturday, 1, 10, 153000, 39600⟩],
    .once 2040 3 31 150000 37800, .once 2040 10 6 153000 39600,
    .yearly 2041 2044 [⟨.saturday, 2, 4, 150000, 37800⟩, ⟨.saturday, 1, 10, 153000, 39600⟩],
    .once 2045 4 1 150000 37800, .once 2045 9 30 153000 39600, .once 2046 3 31 150000 37800,
    .once 2046 10 6 153000 39600,
    .yearly 2047 2050 [⟨.saturday, 2, 4, 150000, 37800⟩, ⟨.saturday, 1, 10, 153000, 39600⟩],
    .once 2051 4 1 150000 37800, .once 2051 9 30 153000 39600,
    .yearly 2052 2055 [⟨.saturday, 3, 4, 150000, 37800⟩, ⟨.saturday, 2, 10, 153000, 39600⟩],
    .once 2056 4 1 150000 37800, .once 2056 9 30 153000 39600, .once 2057 3 31 150000 37800,
    .once 2057 10 6 153000 39600,
    .yearly 2058 2061 [⟨.saturday, 2, 4, 150000, 37800⟩, ⟨.saturday, 1, 10, 153000, 39600⟩],
    .once 2062 4 1 150000 37800, .once 2062 9 30 153000 39600, .once 2063 3 31 150000 37800,
    .once 2063 10 6 153000 39600,
    .yearly 2064 2067 [⟨.saturday, 2, 4, 150000, 37800⟩, ⟨.saturday, 1, 10, 153000, 39600⟩],
    .once 2068 3 31 150000 37800, .once 2068 10 6 153000 39600,
    .yearly 2069 2072 [⟨.saturday, 2, 4, 150000, 37800⟩, ⟨.saturday, 1, 10, 153000, 39600⟩],
    .once 2073 4 1 150000 37800, .once 2073 9 30 153000 39600, .once 2074 3 31 150000 37800,
    .once 2074 10 6 153000 39600,
    .yearly 2075 2078 [⟨.saturday, 2, 4, 150000, 37800⟩, ⟨.saturday, 1, 10, 153000, 39600⟩],
    .once 2079 4 1 150000 37800, .once 2079 9 30 153000 39600,
    .yearly 2080 2083 [⟨.saturday, 3, 4, 150000, 37800⟩, ⟨.saturday, 2, 10, 153000, 39600⟩],
    .once 2084 4 1 150000 37800, .once 2084 9 30 153000 39600, .once 2085 3 31 150000 37800,
    .once 2085 10 6 153000 39600,
    .yearly 2086 2089 [⟨.saturday, 2, 4, 150000, 37800⟩, ⟨.saturday, 1, 10, 153000, 39600⟩],
    .once 2090 4 1 150000 37800, .once 2090 9 30 153000 39600, .once 2091 3 31 150000 37800,
    .once 2091 10 6 153000 39600,
    .yearly 2092 2095 [⟨.saturday, 2, 4, 150000, 37800⟩, ⟨.saturday, 1, 10, 153000, 39600⟩],
    .once 2096 3 31 150000 37800, .once 2096 10 6 153000 39600,
    .yearly 2097 2099 [⟨.saturday, 4, 4, 150000, 37800⟩, ⟨.saturday, 3, 10, 153000, 39600⟩]]

/-- The zone `Pacific/Apia`. -/
def apia : Zone :=
  Zone.ofSpans "Pacific/Apia" (45184)
    [.once 1892 7 4 112656 (-41216), .once 1911 1 1 112656 (-41400),
    .once 1950 1 1 113000 (-39600), .once 2010 9 26 110000 (-36000),
    .once 2011 4 2 140000 (-39600), .once 2011 9 24 140000 (-36000),
    .once 2011 12 30 100000 50400, .once 2012 3 31 140000 46800, .once 2012 9 29 140000 50400,
    .yearly 2013 2017 [⟨.saturday, 1, 4, 140000, 46800⟩, ⟨.saturday, 23, 9, 140000, 50400⟩],
    .once 2018 3 31 140000 46800, .once 2018 9 29 140000 50400, .once 2019 4 6 140000 46800,
    .once 2019 9 28 140000 50400, .once 2020 4 4 140000 46800, .once 2020 9 26 140000 50400,
    .once 2021 4 3 140000 46800]

/-- The zone `Pacific/Kwajalein`. -/
def kwajalein : Zone :=
  Zone.ofSpans "Pacific/Kwajalein" (40160)
    [.once 1900 12 31 125040 39600, .once 1936 12 31 130000 36000, .once 1941 3 31 140000 32400,
    .once 1944 2 5 150000 39600, .once 1969 9 30 130000 (-43200), .once 1993 8 21 120000 43200]

/-- The zone `America/Sao_Paulo`. -/
def saoPaulo : Zone :=
  Zone.ofSpans "America/Sao_Paulo" (-11188)
    [.once 1914 1 1 30628 (-10800), .once 1931 10 3 140000 (-7200), .once 1932 4 1 20000 (-10800),
    .once 1932 10 3 30000 (-7200), .once 1933 4 1 20000 (-10800), .once 1949 12 1 30000 (-7200),
    .once 1950 4 16 30000 (-10800), .once 1950 12 1 30000 (-7200), .once 1951 4 1 20000 (-10800),
    .once 1951 12 1 30000 (-7200), .once 1952 4 1 20000 (-10800), .once 1952 12 1 30000 (-7200),
    .once 1953 3 1 20000 (-10800), .once 1963 10 23 30000 (-7200), .once 1964 3 1 20000 (-10800),
    .once 1965 1 31 30000 (-7200), .once 1965 3 31 20000 (-10800), .once 1965 12 1 30000 (-7200),
    .once 1966 3 1 20000 (-10800), .once 1966 11 1 30000 (-7200), .once 1967 3 1 20000 (-10800),
    .once 1967 11 1 30000 (-7200), .once 1968 3 1 20000 (-10800), .once 1985 11 2 30000 (-7200),
    .once 1986 3 15 20000 (-10800), .once 1986 10 25 30000 (-7200),
    .once 1987 2 14 20000 (-10800), .once 1987 10 25 30000 (-7200), .once 1988 2 7 20000 (-10800),
    .once 1988 10 16 30000 (-7200), .once 1989 1 29 20000 (-10800),
    .once 1989 10 15 30000 (-7200), .once 1990 2 11 20000 (-10800),
    .once 1990 10 21 30000 (-7200), .once 1991 2 17 20000 (-10800),
    .once 1991 10 20 30000 (-7200), .once 1992 2 9 20000 (-10800), .once 1992 10 25 30000 (-7200),
    .once 1993 1 31 20000 (-10800), .once 1993 10 17 30000 (-7200),
    .once 1994 2 20 20000 (-10800), .once 1994 10 16 30000 (-7200),
    .once 1995 2 19 20000 (-10800), .once 1995 10 15 30000 (-7200),
    .once 1996 2 11 20000 (-10800), .once 1996 10 6 30000 (-7200), .once 1997 2 16 20000 (-10800),
    .once 1997 10 6 30000 (-7200), .once 1998 3 1 20000 (-10800), .once 1998 10 11 30000 (-7200),
    .once 1999 2 21 20000 (-10800), .once 1999 10 3 30000 (-7200), .once 2000 2 27 20000 (-10800),
    .once 2000 10 8 30000 (-7200), .once 2001 2 18 20000 (-10800), .once 2001 10 14 30000 (-7200),
    .once 2002 2 17 20000 (-10800), .once 2002 11 3 30000 (-7200), .once 2003 2 16 20000 (-10800),
    .once 2003 10 19 30000 (-7200), .once 2004 2 15 20000 (-10800), .once 2004 11 2 30000 (-7200),
    .once 2005 2 20 20000 (-10800), .once 2005 10 16 30000 (-7200),
    .once 2006 2 19 20000 (-10800), .once 2006 11 5 30000 (-7200), .once 2007 2 25 20000 (-10800),
    .once 2007 10 14 30000 (-7200),
    .yearly 2008 2011 [⟨.sunday, 15, 2, 20000, -10800⟩, ⟨.sunday, 16, 10, 30000, -7200⟩],
    .once 2012 2 26 20000 (-10800), .once 2012 10 21 30000 (-7200),
    .yearly 2013 2017 [⟨.sunday, 16, 2, 20000, -10800⟩, ⟨.sunday, 15, 10, 30000, -7200⟩],
    .once 2018 2 18 20000 (-10800), .once 2018 11 4 30000 (-7200), .once 2019 2 17 20000 (-10800)]

/-- The zone `America/St_Johns`. -/
def stJohns : Zone :=
  Zone.ofSpans "America/St_Johns" (-12652)
    [.once 1917 4 8 53052 (-9052), .once 1917 9 17 43052 (-12652), .once 1918 4 14 53052 (-9052),
    .once 1918 10 27 43052 (-12652), .once 1919 5 6 23052 (-9052), .once 1919 8 13 13052 (-12652),
    .once 1920 5 3 23052 (-9052), .once 1920 11 1 13052 (-12652),
    .yearly 1921 1925 [⟨.monday, 2, 5, 23052, -9052⟩, ⟨.monday, 26, 10, 13052, -12652⟩],
    .once 1926 5 3 23052 (-9052), .once 1926 11 1 13052 (-12652),
    .yearly 1927 1934 [⟨.monday, 2, 5, 23052, -9052⟩, ⟨.monday, 26, 10, 13052, -12652⟩],
    .once 1935 3 30 33052 (-12600), .once 1935 5 6 23000 (-9000), .once 1935 10 28 13000 (-12600),
    .yearly 1936 1941 [⟨.monday, 9, 5, 33000, -9000⟩, ⟨.monday, 2, 10, 23000, -12600⟩],
    .once 1942 5 11 33000 (-9000), .once 1945 9 30 43000 (-12600),
    .yearly 1946 1950 [⟨.sunday, 8, 5, 53000, -9000⟩, ⟨.sunday, 2, 10, 43000, -12600⟩],
    .yearly 1951 1959 [⟨.sunday, 24, 4, 53000, -9000⟩, ⟨.sunday, 25, 9, 43000, -12600⟩],
    .yearly 1960 1986 [⟨.sunday, 24, 4, 53000, -9000⟩, ⟨.sunday, 25, 10, 43000, -12600⟩],
    .once 1987 4 5 33100 (-9000), .once 1987 10 25 23100 (-12600), .once 1988 4 3 33100 (-5400),
    .once 1988 10 30 13100 (-12600),
    .yearly 1989 2006 [⟨.sunday, 1, 4, 33100, -9000⟩, ⟨.sunday, 25, 10, 23100, -12600⟩],
    .yearly 2007 2010 [⟨.sunday, 8, 3, 33100, -9000⟩, ⟨.sunday, 1, 11, 23100, -12600⟩],
    .once 2011 3 13 33100 (-9000), .once 2011 11 6 43000 (-12600),
    .yearly 2012 2099 [⟨.sunday, 8, 3, 53000, -9000⟩, ⟨.sunday, 1, 11, 43000, -12600⟩]]

/-- The zone `Etc/GMT+5`. -/
def fiveHoursWest : Zone :=
  Zone.ofSpans "Etc/GMT+5" (-18000) []

/-! ## 3. Names -/

/-- The zones, each under its own name. -/
def zones : List Zone :=
  [Zone.utc, newYork, london, paris, dublin, tokyo, kolkata, kathmandu, sydney, lordHowe, apia,
    kwajalein, saoPaulo, stJohns, fiveHoursWest]

/-- Further names, each with the name of the zone whose rules it follows. -/
def links : List (String × String) :=
  [("US/Eastern", "America/New_York"), ("Etc/UTC", "UTC"), ("Etc/Zulu", "UTC"), ("Zulu", "UTC"),
    ("GMT", "UTC")]

end ZoneTable

/-- The zone with a name. Case matters, and a zone found under a further name keeps that name. -/
def Zone.named? (name : String) : Option Zone :=
  let own := (ZoneTable.links.lookup name).getD name
  (ZoneTable.zones.find? (·.name == own)).map fun zone => { zone with name := name }

end Almanac
