/-!
# The demo program

The source text that stands in where no file is given.
-/

namespace MiniJava

def demoLines : List String :=
  ["public class EjemploPatterns \x7b",
    "    public static void main(String[] args) \x7b",
    "        // Variables",
    "        String nombre = \"Juan\";",
    "        int edad = 30;",
    "        double salario = 2500.75;",
    "",
    "        // Imprimir mensaje con printf",
    "        System.out.printf(\"Nombre: %s | Edad: %d | Salario: %.2f%n\", nombre, edad, salario);",
    "",
    "        // Condicional",
    "        if (edad > 18) \x7b",
    "            System.out.println(\"Mayor de edad\");",
    "        \x7d else \x7b",
    "            System.out.println(\"Menor de edad\");",
    "        \x7d",
    "",
    "        // Bucle for",
    "        for (int i = 0; i < 3; i++) \x7b",
    "            System.out.println(\"Contador: \" + i);",
    "        \x7d",
    "",
    "        // Comentarios",
    "        // Este es un comentario de una sola línea",
    "        /* Este es un comentario",
    "           de multiples lineas */",
    "    \x7d",
    "\x7d"]

def demoSource : String := String.join (demoLines.map fun line => line ++ "\n")

end MiniJava
